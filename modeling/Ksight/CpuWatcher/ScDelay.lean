/-
  Ksight.CpuWatcher.ScDelay — the summaries of the delays of system calls
  (src/process/cpu_watcher/src/cpu_watcher.c: `syscall_delay_print`, `max_print` and the
  loop of `main` for option -y).

  A poll delivers the events of a window, one callback each; then `max_print` prints their
  average, maximum and minimum, but for the first window, and the globals are reset. The line
  that is printed for each event, its own fields, is left out.

  The law (`Right`): no summary divides by 0, and each is that of the delays of its window.
  The maximum always is. An event that raises the maximum is not looked at for the minimum,
  which starts at 10^7 (`least`).

  - `right_iff`: the law holds of a sequence of windows if and only if the count of none
    overflows, and each that is summarised has an event, a sum of at most 31 bits, and a least
    delay of 10^7, or a smaller one that is 0 or is not only that of the first event (`Clear`).
  - A window without events divides by 0 (`empty_window_divides_by_zero`); a single event has
    the minimum 10^7 (`single_event_has_no_minimum`).
-/

import Mathlib.Algebra.Order.Ring.Nat
import Mathlib.Data.List.Forall2
import Mathlib.Data.List.Induction
import Ksight.Lib.CInt

namespace Ksight.CpuWatcher.ScDelay

open Ksight.Lib.CInt

/-- `SYSCALL_MIN_TIME` as an `int`. -/
def syscallMinTime : Int32 := 10000000

structure Globals where
  scSumTime : Int32
  scMaxTime : Int32
  scMinTime : Int32
  sysCallCount : Int32

def Globals.reset : Globals := ⟨0, 0, syscallMinTime, 0⟩

/-- The callback; `none` where the count overflows, which is undefined. -/
def syscallDelayPrint (g : Globals) (delay : UInt64) : Option Globals :=
  let g := { g with scSumTime := toInt (toULong g.scSumTime + delay) }
  let g :=
    if toULong g.scMaxTime < delay then { g with scMaxTime := toInt delay }
    else if toULong g.scMinTime > delay then { g with scMinTime := toInt delay }
    else g
  if g.sysCallCount = Int32.maxValue then none else some { g with sysCallCount := g.sysCallCount + 1 }

structure Summary where
  average : Int32
  max : Int32
  min : Int32
  deriving DecidableEq

/-- `none` if it divides by 0. -/
def maxPrint (g : Globals) : Option Summary :=
  if g.sysCallCount = 0 then none
  else some ⟨g.scSumTime / g.sysCallCount, g.scMaxTime, g.scMinTime⟩

/-- One turn of the loop, whose poll delivers `delays`: what it prints, if `start` is set
    (`syscall_start_print`). -/
def turn (start : Bool) (delays : List UInt64) : Option (Option Summary) := do
  let g ← delays.foldlM syscallDelayPrint .reset
  if start then (maxPrint g).map some else some none

/-- The turns of the loop, each of which resets the globals. -/
def loop : Bool → List (List UInt64) → Option (List (Option Summary))
  | _, [] => some []
  | start, delays :: windows => do
    let out ← turn start delays
    let outs ← loop true windows
    some (out :: outs)

/-! ## The law -/

/-- The summary of delays. -/
structure Summary.Of (s : Summary) (ds : List Nat) : Prop where
  average : s.average.toInt = (ds.sum / ds.length : Nat)
  max : ∃ m ∈ ds, (∀ d ∈ ds, d ≤ m) ∧ s.max.toInt = m
  min : ∃ m ∈ ds, (∀ d ∈ ds, m ≤ d) ∧ s.min.toInt = m

/-- Nothing undefined happens, and each summary is that of its window. -/
def Right (start : Bool) (windows : List (List UInt64)) : Prop :=
  ∃ outs, loop start windows = some outs ∧
    List.Forall₂ (fun delays out => ∀ s ∈ out, Summary.Of s (delays.map UInt64.toNat)) windows outs

/-- The condition for a summary. -/
structure Clear (ds : List Nat) : Prop where
  sum : ds.sum < 2 ^ 31
  least : ∃ m ∈ ds, (∀ d ∈ ds, m ≤ d) ∧ (m = 10000000 ∨ m < 10000000 ∧ (m = 0 ∨ m ∈ ds.tail))

/-! ## One window -/

/-- The maximum and the minimum after one more delay. -/
def look (p : Nat × Nat) (d : Nat) : Nat × Nat :=
  if p.1 < d then (d, p.2) else if p.2 > d then (p.1, d) else p

/-- The maximum and the minimum of a window. -/
def seen (ds : List Nat) : Nat × Nat := ds.foldl look (0, 10000000)

/-- The globals after a window, whose count has not overflowed. -/
structure After (g : Globals) (ds : List Nat) : Prop where
  sum : g.scSumTime = Int32.ofNat ds.sum
  max : g.scMaxTime = Int32.ofNat (seen ds).1
  min : g.scMinTime = Int32.ofNat (seen ds).2
  count : g.sysCallCount = Int32.ofNat ds.length

theorem seen_snoc (ds : List Nat) (d : Nat) : seen (ds ++ [d]) = look (seen ds) d := List.foldl_concat ..

theorem seen_lt {ds : List Nat} (h : ∀ d ∈ ds, d < 2 ^ 31) : (seen ds).1 < 2 ^ 31 ∧ (seen ds).2 < 2 ^ 31 := by
  induction ds using List.reverseRecOn with
  | nil => decide
  | append_singleton ds d ih =>
    obtain ⟨h1, h2⟩ := ih fun x hx => h x (List.mem_append_left _ hx)
    have hd := h d (List.mem_append_right _ (List.mem_singleton_self d))
    rw [seen_snoc, look]
    split
    · exact ⟨hd, h2⟩
    · split
      · exact ⟨h1, hd⟩
      · exact ⟨h1, h2⟩

theorem print_after {g : Globals} {ds : List Nat} (h : After g ds) (hds : ∀ d ∈ ds, d < 2 ^ 31)
    (hlen : ds.length < 2 ^ 31) (d : UInt64) :
    (ds.length + 1 = 2 ^ 31 ∧ syscallDelayPrint g d = none) ∨
      ds.length + 1 < 2 ^ 31 ∧ ∃ g', syscallDelayPrint g d = some g' ∧ After g' (ds ++ [d.toNat]) := by
  obtain ⟨hmax, hmin⟩ := seen_lt hds
  have hfull : g.sysCallCount = Int32.maxValue ↔ ds.length + 1 = 2 ^ 31 := by
    rw [h.count, ← Int32.toInt_inj, Int32.toInt_ofNat_of_lt hlen]
    change (ds.length : Int) = 2147483647 ↔ _
    omega
  have hlt : toULong g.scMaxTime < d ↔ (seen ds).1 < d.toNat := by
    rw [UInt64.lt_iff_toNat_lt, h.max, toULong_ofNat hmax]
  have hgt : toULong g.scMinTime > d ↔ (seen ds).2 > d.toNat := by
    rw [gt_iff_lt, UInt64.lt_iff_toNat_lt, h.min, toULong_ofNat hmin]
  by_cases hc : ds.length + 1 = 2 ^ 31
  · exact .inl ⟨hc, by simp [syscallDelayPrint, apply_ite Globals.sysCallCount, hfull.mpr hc]⟩
  · have hnext : g.sysCallCount + 1 = Int32.ofNat (ds ++ [d.toNat]).length := by
      rw [h.count, List.length_append, Int32.ofNat_add]
      rfl
    have hsum : toInt (toULong g.scSumTime + d) = Int32.ofNat (ds ++ [d.toNat]).sum := by
      rw [h.sum, toInt_add, List.sum_append, List.sum_singleton]
    have hrun : syscallDelayPrint g d = some
        { scSumTime := toInt (toULong g.scSumTime + d)
          scMaxTime := Int32.ofNat (look (seen ds) d.toNat).1
          scMinTime := Int32.ofNat (look (seen ds) d.toNat).2
          sysCallCount := g.sysCallCount + 1 } := by
      by_cases h1 : (seen ds).1 < d.toNat
      · simp only [syscallDelayPrint, look, hlt, h1, if_true, hfull, hc, if_false]
        rw [toInt_eq d, h.min]
      · by_cases h2 : (seen ds).2 > d.toNat
        · simp only [syscallDelayPrint, look, hlt, hgt, h1, h2, if_true, hfull, hc, if_false]
          rw [toInt_eq d, h.max]
        · simp only [syscallDelayPrint, look, hlt, hgt, h1, h2, hfull, hc, if_false]
          rw [h.max, h.min]
    rw [← seen_snoc] at hrun
    exact .inr ⟨by omega, _, hrun, hsum, rfl, rfl, hnext⟩

theorem window_spec {delays : List UInt64} (hd : ∀ d ∈ delays, d.toNat < 2 ^ 31) :
    (2 ^ 31 ≤ delays.length ∧ delays.foldlM syscallDelayPrint .reset = none) ∨
      delays.length < 2 ^ 31 ∧ ∃ g, delays.foldlM syscallDelayPrint .reset = some g ∧
        After g (delays.map UInt64.toNat) := by
  induction delays using List.reverseRecOn with
  | nil => exact .inr ⟨by decide, .reset, rfl, rfl, rfl, rfl, rfl⟩
  | append_singleton delays d ih =>
    have hds : ∀ x ∈ delays, x.toNat < 2 ^ 31 := fun x hx => hd x (List.mem_append_left _ hx)
    have hnat : ∀ x ∈ delays.map UInt64.toNat, x < 2 ^ 31 := by simpa using hds
    rw [List.foldlM_append, List.length_append, List.length_singleton, List.map_append, List.map_singleton]
    rcases ih hds with ⟨hlen, hnone⟩ | ⟨hlen, g, hg, hafter⟩
    · rw [hnone]
      exact .inl ⟨by omega, rfl⟩
    · rw [hg]
      rcases print_after hafter hnat (by rwa [List.length_map]) d with
        ⟨hfull, hnone⟩ | ⟨hnext, g', hg', hafter'⟩
      · rw [List.length_map] at hfull
        exact .inl ⟨hfull.ge, by simp [hnone]⟩
      · rw [List.length_map] at hnext
        exact .inr ⟨hnext, g', by simp [hg'], hafter'⟩

/-! ## The maximum and the minimum -/

theorem max_spec (ds : List Nat) : (∀ d ∈ ds, d ≤ (seen ds).1) ∧ ((seen ds).1 = 0 ∨ (seen ds).1 ∈ ds) := by
  induction ds using List.reverseRecOn with
  | nil => exact ⟨nofun, .inl rfl⟩
  | append_singleton ds d ih =>
    obtain ⟨hle, hmem⟩ := ih
    have hfst : (seen (ds ++ [d])).1 = max (seen ds).1 d := by
      rw [seen_snoc, look]
      split
      · exact (Nat.max_eq_right (Nat.le_of_lt ‹_›)).symm
      · split <;> exact (Nat.max_eq_left (Nat.not_lt.mp ‹_›)).symm
    rw [hfst]
    refine ⟨fun x hx => ?_, ?_⟩
    · rcases List.mem_append.mp hx with hx | hx
      · exact Nat.le_trans (hle x hx) (Nat.le_max_left ..)
      · rw [List.mem_singleton.mp hx]
        exact Nat.le_max_right ..
    · rcases Nat.le_total (seen ds).1 d with h | h
      · rw [Nat.max_eq_right h]
        exact .inr (List.mem_append_right _ (List.mem_singleton_self d))
      · rw [Nat.max_eq_left h]
        exact hmem.imp_right (List.mem_append_left _)

/-- The minimum is that of the delays that are 0 or come after the first, where they do not raise
    the maximum. -/
theorem min_spec (d : Nat) (ds : List Nat) :
    let m := (seen (d :: ds)).2
    m ≤ 10000000 ∧ (∀ x ∈ ds, x ≤ d → m ≤ x) ∧ (d = 0 → m = 0) ∧
      (m = 10000000 ∨ m ∈ ds ∨ m = d ∧ d = 0) := by
  induction ds using List.reverseRecOn with
  | nil =>
    rcases Nat.eq_zero_or_pos d with rfl | hd
    · simp [seen, look]
    · simp [seen, look, hd, Nat.ne_of_gt hd]
  | append_singleton ds x ih =>
    obtain ⟨hle, hleast, hzero, hmem⟩ := ih
    have hmax : d ≤ (seen (d :: ds)).1 := (max_spec (d :: ds)).1 d List.mem_cons_self
    rw [← List.cons_append, seen_snoc, look]
    by_cases h1 : (seen (d :: ds)).1 < x
    · -- the maximum is raised
      rw [if_pos h1]
      refine ⟨hle, fun y hy hyd => ?_, hzero, hmem.imp_right (Or.imp_left (List.mem_append_left _))⟩
      rcases List.mem_append.mp hy with hy | hy
      · exact hleast y hy hyd
      · rw [List.mem_singleton.mp hy] at hyd
        omega
    · rw [if_neg h1]
      by_cases h2 : (seen (d :: ds)).2 > x
      · rw [if_pos h2]
        refine ⟨by omega, fun y hy hyd => ?_, fun hd => ?_, ?_⟩
        · rcases List.mem_append.mp hy with hy | hy
          · have := hleast y hy hyd
            omega
          · exact (List.mem_singleton.mp hy).ge
        · have := hzero hd
          omega
        · exact .inr (.inl (List.mem_append_right _ (List.mem_singleton_self x)))
      · rw [if_neg h2]
        refine ⟨hle, fun y hy hyd => ?_, hzero, hmem.imp_right (Or.imp_left (List.mem_append_left _))⟩
        rcases List.mem_append.mp hy with hy | hy
        · exact hleast y hy hyd
        · rw [List.mem_singleton.mp hy]
          omega

/-- The minimum of a window is its least delay if and only if that is found. -/
theorem min_iff (d : Nat) (ds : List Nat) :
    ((seen (d :: ds)).2 ∈ d :: ds ∧ ∀ x ∈ d :: ds, (seen (d :: ds)).2 ≤ x) ↔
      ∃ m ∈ d :: ds, (∀ x ∈ d :: ds, m ≤ x) ∧ (m = 10000000 ∨ m < 10000000 ∧ (m = 0 ∨ m ∈ ds)) := by
  obtain ⟨hle, hleast, hzero, hmem⟩ := min_spec d ds
  generalize (seen (d :: ds)).2 = s at hle hleast hzero hmem ⊢
  constructor
  · rintro ⟨hs, hmin⟩
    refine ⟨s, hs, hmin, ?_⟩
    rcases hmem with h | h | ⟨h, hd⟩
    · exact .inl h
    · rcases Nat.lt_or_eq_of_le hle with hlt | heq
      · exact .inr ⟨hlt, .inr h⟩
      · exact .inl heq
    · exact .inr ⟨by omega, .inl (h.trans hd)⟩
  · rintro ⟨m, hm, hmin, hcases⟩
    have hsm : m ≤ s := by
      rcases hmem with h | h | ⟨h, -⟩
      · rcases hcases with h' | h' <;> omega
      · exact hmin s (List.mem_cons_of_mem _ h)
      · exact h ▸ hmin d List.mem_cons_self
    have hms : s ≤ m := by
      rcases hcases with h | ⟨-, h | h⟩
      · omega
      · -- a delay of 0 is always looked at
        rcases List.mem_cons.mp hm with hd | hm
        · have := hzero (hd.symm.trans h)
          omega
        · exact hleast m hm (by omega)
      · exact hleast m h (hmin d List.mem_cons_self)
    obtain rfl : s = m := Nat.le_antisymm hms hsm
    exact ⟨hm, hmin⟩

/-! ## The average -/

theorem average_iff {sum n : Nat} (hn : 0 < n) (hlt : n < 2 ^ 31) :
    (Int32.ofNat sum / Int32.ofNat n).toInt = (sum / n : Nat) ↔ sum < 2 ^ 31 := by
  have hne : Int32.ofNat n ≠ -1 := by
    rw [ne_eq, ← Int32.toInt_inj, Int32.toInt_ofNat_of_lt hlt]
    change ¬ (n : Int) = -1
    omega
  rw [Int32.toInt_div_of_ne_right _ _ hne, Int32.toInt_ofNat_of_lt hlt]
  constructor
  · intro h
    by_contra hge
    -- the sum has wrapped around to one that is smaller by 2^32 at least
    have hwrap : (Int32.ofNat sum).toInt ≤ (sum : Int) - 2 ^ 32 := by
      have hbmod : (Int32.ofNat sum).toInt = (sum : Int).bmod (2 ^ 32) := Int32.toInt_ofNat'
      have hlo := Int32.toInt_lt (Int32.ofNat sum)
      have := Int.bmod_add_bdiv (sum : Int) (2 ^ 32)
      rw [hbmod] at hlo ⊢
      omega
    generalize (Int32.ofNat sum).toInt = a at h hwrap
    have hsum := Nat.div_add_mod sum n
    have hmod := Nat.mod_lt sum hn
    rcases Int.le_total 0 a with hpos | hneg
    · rw [Int.tdiv_eq_ediv_of_nonneg hpos] at h
      have ha : (n : Int) * (sum / n : Nat) ≤ a := h ▸ Int.mul_ediv_self_le (by omega)
      rw [← Int.natCast_mul] at ha
      omega
    · have hquot : 0 < sum / n := Nat.div_pos (by omega) hn
      have hneg' : 0 ≤ (-a).tdiv n := Int.tdiv_nonneg (by omega) (Int.natCast_nonneg n)
      rw [Int.neg_tdiv] at hneg'
      omega
  · intro h
    rw [Int32.toInt_ofNat_of_lt h, Int.tdiv_eq_ediv_of_nonneg (Int.natCast_nonneg sum)]
    exact (Int.natCast_ediv sum n).symm

/-! ## A summary -/

theorem maxPrint_nil {g : Globals} (h : After g []) : maxPrint g = none := if_pos h.count

theorem maxPrint_cons {g : Globals} {d : Nat} {ds : List Nat} (h : After g (d :: ds))
    (hlen : (d :: ds).length < 2 ^ 31) :
    maxPrint g = some ⟨Int32.ofNat (d :: ds).sum / Int32.ofNat (d :: ds).length,
      Int32.ofNat (seen (d :: ds)).1, Int32.ofNat (seen (d :: ds)).2⟩ := by
  have hne : g.sysCallCount ≠ 0 := by
    rw [h.count, ne_eq, ← Int32.toInt_inj, Int32.toInt_ofNat_of_lt hlen, Int32.toInt_zero, List.length_cons]
    omega
  rw [maxPrint, if_neg hne, h.sum, h.count, h.max, h.min]

theorem summary_iff {g : Globals} {ds : List Nat} (h : After g ds) (hds : ∀ d ∈ ds, d < 2 ^ 31)
    (hlen : ds.length < 2 ^ 31) : (∃ s, maxPrint g = some s ∧ s.Of ds) ↔ Clear ds := by
  cases ds with
  | nil =>
    rw [maxPrint_nil h]
    exact iff_of_false (by simp) fun hc => by simpa using hc.least
  | cons d ds =>
    obtain ⟨hmax, hmin⟩ := seen_lt hds
    rw [maxPrint_cons h hlen]
    simp only [Option.some.injEq, exists_eq_left']
    constructor
    · intro ⟨havg, _, m, hm, hle, heq⟩
      refine ⟨(average_iff (Nat.zero_lt_succ _) hlen).mp havg, (min_iff d ds).mp ?_⟩
      rw [Int32.toInt_ofNat_of_lt hmin, Int.natCast_inj] at heq
      exact heq ▸ ⟨hm, hle⟩
    · intro ⟨hsum, hleast⟩
      obtain ⟨hmem, hle⟩ := (min_iff d ds).mpr hleast
      obtain ⟨hge, hcases⟩ := max_spec (d :: ds)
      refine ⟨(average_iff (Nat.zero_lt_succ _) hlen).mpr hsum, ⟨_, ?_, hge, Int32.toInt_ofNat_of_lt hmax⟩,
        ⟨_, hmem, hle, Int32.toInt_ofNat_of_lt hmin⟩⟩
      rcases hcases with h0 | h0
      · -- all delays are 0
        have := hge d List.mem_cons_self
        rw [h0, ← Nat.le_zero.mp (h0 ▸ this)]
        exact List.mem_cons_self
      · exact h0

/-! ## All windows -/

/-- The condition for one turn of the loop. -/
theorem turn_iff (start : Bool) {delays : List UInt64} (hd : ∀ d ∈ delays, d.toNat < 2 ^ 31) :
    (∃ out, turn start delays = some out ∧ ∀ s ∈ out, Summary.Of s (delays.map UInt64.toNat)) ↔
      delays.length < 2 ^ 31 ∧ (start = true → Clear (delays.map UInt64.toNat)) := by
  rcases window_spec hd with ⟨hlen, hnone⟩ | ⟨hlen, g, hg, hafter⟩
  · rw [turn, hnone]
    exact iff_of_false nofun fun h => by omega
  · have hsum := summary_iff hafter (by simpa using hd) (by rwa [List.length_map])
    rw [turn, hg, and_iff_right hlen]
    cases start with
    | false => simp
    | true =>
      rw [← hsum]
      rcases hp : maxPrint g with _ | s <;> simp [hp]

theorem right_cons (start : Bool) (delays : List UInt64) (windows : List (List UInt64)) :
    Right start (delays :: windows) ↔
      (∃ out, turn start delays = some out ∧ ∀ s ∈ out, Summary.Of s (delays.map UInt64.toNat)) ∧
        Right true windows := by
  constructor
  · rintro ⟨outs, hloop, hall⟩
    obtain ⟨out, hout, hloop⟩ := Option.bind_eq_some_iff.mp hloop
    obtain ⟨outs', houts, heq⟩ := Option.bind_eq_some_iff.mp hloop
    cases heq
    obtain ⟨h1, h2⟩ := List.forall₂_cons.mp hall
    exact ⟨⟨out, hout, h1⟩, outs', houts, h2⟩
  · rintro ⟨⟨out, hout, h1⟩, outs, houts, h2⟩
    exact ⟨out :: outs, by rw [loop, hout]; simp [houts], .cons h1 h2⟩

theorem right_true_iff {windows : List (List UInt64)} (h : ∀ w ∈ windows, ∀ d ∈ w, d.toNat < 2 ^ 31) :
    Right true windows ↔ ∀ w ∈ windows, w.length < 2 ^ 31 ∧ Clear (w.map UInt64.toNat) := by
  induction windows with
  | nil => exact iff_of_true ⟨[], rfl, .nil⟩ nofun
  | cons w windows ih =>
    obtain ⟨hw, hws⟩ := List.forall_mem_cons.mp h
    rw [right_cons, turn_iff true hw, ih hws, List.forall_mem_cons]
    simp

/-- Of delays that fit an `int`. -/
theorem right_iff {windows : List (List UInt64)} (h : ∀ w ∈ windows, ∀ d ∈ w, d.toNat < 2 ^ 31) :
    Right false windows ↔ (∀ w ∈ windows, w.length < 2 ^ 31) ∧ ∀ w ∈ windows.tail, Clear (w.map UInt64.toNat) := by
  cases windows with
  | nil => exact iff_of_true ⟨[], rfl, .nil⟩ ⟨nofun, nofun⟩
  | cons w windows =>
    obtain ⟨hw, hws⟩ := List.forall_mem_cons.mp h
    rw [right_cons, turn_iff false hw, right_true_iff hws, List.forall_mem_cons, List.tail_cons, forall₂_and]
    simp [and_assoc]

/-! ## Short sequences -/

theorem two_windows_are_right : Right false [[], [5, 9, 2]] :=
  (right_iff (by simp)).mpr ⟨by simp, fun _ h => List.mem_singleton.mp h ▸ ⟨by decide, by decide⟩⟩

/-- The second poll delivers nothing. -/
theorem empty_window_divides_by_zero : loop false [[5], []] = none ∧ ¬ Right false [[5], []] :=
  ⟨rfl, fun ⟨_, h, _⟩ => nomatch h⟩

/-- One event, or events of which each is longer than the one before. -/
theorem single_event_has_no_minimum :
    loop false [[], [5, 9]] = some [none, some ⟨7, 9, 10000000⟩] ∧ ¬ Right false [[], [5, 9]] := by
  have hloop : loop false [[], [5, 9]] = some [none, some ⟨7, 9, 10000000⟩] := by decide
  refine ⟨hloop, ?_⟩
  rintro ⟨outs, h, hall⟩
  rw [hloop, Option.some.injEq] at h
  subst h
  obtain ⟨m, hm, -, heq⟩ := ((List.forall₂_cons.mp (List.forall₂_cons.mp hall).2).1 _ rfl).min
  revert m
  decide

end Ksight.CpuWatcher.ScDelay

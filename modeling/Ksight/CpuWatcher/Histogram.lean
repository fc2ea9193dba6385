/-
  Ksight.CpuWatcher.Histogram — the histogram of the durations of `schedule()`
  (src/process/cpu_watcher/src/cpu_watcher.c: `handle_event`, `histogram`, `print_hstgram`).

  A duration is narrowed to an `int` and counted at its logarithm in `count`, which has 25
  elements. The histogram has a row for each of the first 20. `count` is never reset.

  The law (`Accounted`): every event is stored inside the array and is counted in the one row
  whose range has its duration, so that the counts of the rows sum to the number of events.

  - `accounted_iff`: the law holds of a sequence of events if and only if every duration is
    below 2^20 and no count overflows.
  - From 2^20 on a duration is in no row; one of 2^25 is stored outside of the array
    (`long_delay_is_stored_outside`), and one of 2^32 is counted as 0 (`wrapped_delay`).
-/

import Mathlib.Algebra.BigOperators.Ring.Finset
import Mathlib.Algebra.Order.Ring.Nat
import Mathlib.Data.List.Induction
import Mathlib.Data.Nat.Log
import Ksight.Lib.CInt

namespace Ksight.CpuWatcher.Histogram

open Ksight.Lib.CInt

/-- The elements of `count`. -/
def countSize : Nat := 25

abbrev Counts := Nat → Int32

def zeroCounts : Counts := fun _ => 0

/-- `while (dly > 1) { dly /= 2; i++; }` -/
def halvings (dly : Int) : Nat := if dly > 1 then halvings (dly / 2) + 1 else 0
termination_by dly.toNat
decreasing_by omega

def indexOf (delay : UInt64) : Nat := halvings (toInt delay).toInt

/-- `none` where the array is left or its element overflows, which is undefined. -/
def handleEvent (count : Counts) (delay : UInt64) : Option Counts :=
  let i := indexOf delay
  if i < countSize then
    if count i = Int32.maxValue then none else some (Function.update count i (count i + 1))
  else none

/-! ## The printed histogram -/

structure Row where
  low : Int
  high : Int
  count : Int32
  stars : Nat
  deriving DecidableEq

/-- `while (tmp >= 10) { tmp /= 10; cnt++; }` -/
def digits (tmp : Int) : Nat := if tmp ≥ 10 then digits (tmp / 10) + 1 else 0
termination_by tmp.toNat
decreasing_by omega

/-- How many of the first ten counts have the logarithm `cnt`. -/
def log10 (count : Counts) (cnt : Nat) : Nat := (List.range 10).countP fun i => digits (count i).toInt = cnt

def maxOf (count : Counts) : Nat := (List.range 10).foldl (fun max i => if max < log10 count i then i else max) 0

def perLen (count : Counts) : Nat := 10 ^ maxOf count

/-- The loops of `print_hstgram`, of one star each. -/
def stars (perLen : Nat) (cnt : Int) : Nat :=
  if perLen = 1 then cnt.toNat else if cnt < 0 then 0 else cnt.toNat / perLen

def row (count : Counts) (low high : Int) (i : Nat) : Row := ⟨low, high, count i, stars (perLen count) (count i).toInt⟩

def histogram (count : Counts) : List Row :=
  row count 0 1 0 :: row count 2 3 1 :: (List.range' 2 18).map fun i => row count (2 ^ i) (2 ^ (i + 1) - 1) i

/-! ## The law -/

def Row.Contains (r : Row) (delay : UInt64) : Prop := r.low ≤ delay.toNat ∧ (delay.toNat : Int) ≤ r.high

instance (r : Row) (delay : UInt64) : Decidable (r.Contains delay) := inferInstanceAs (Decidable (_ ∧ _))

/-- What `histogram` prints after the events accounts for each of them. -/
def Accounted (delays : List UInt64) : Prop :=
  ∃ count, delays.foldlM handleEvent zeroCounts = some count ∧
    (∀ d ∈ delays, ∃! r, r ∈ histogram count ∧ r.Contains d) ∧
    (∀ r ∈ histogram count, r.count.toInt = delays.countP (r.Contains ·)) ∧
    ((histogram count).map (·.count.toInt)).sum = delays.length

/-- The condition. -/
structure Fits (delays : List UInt64) : Prop where
  small : ∀ d ∈ delays, d.toNat < 2 ^ 20
  count : ∀ i < 20, delays.countP (Nat.log 2 ·.toNat = i) < 2 ^ 31

/-! ## The index -/

theorem halvings_eq (n : Nat) : halvings n = Nat.log 2 n := by
  induction n using Nat.strongRecOn with
  | ind n ih =>
    rw [halvings]
    split
    · rename_i h
      have hdiv : (n : Int) / 2 = (n / 2 : Nat) := rfl
      rw [hdiv, ih (n / 2) (by omega)]
      exact (Nat.log_of_one_lt_of_le Nat.one_lt_two (by omega)).symm
    · exact (Nat.log_of_lt (by omega)).symm

theorem indexOf_eq {d : UInt64} (h : d.toNat < 2 ^ 31) : indexOf d = Nat.log 2 d.toNat := by
  rw [indexOf, toInt_eq, Int32.toInt_ofNat_of_lt h, halvings_eq]

theorem log_lt_twenty {n : Nat} : Nat.log 2 n < 20 ↔ n < 2 ^ 20 :=
  ⟨Nat.lt_pow_of_log_lt Nat.one_lt_two, Nat.log_lt_of_lt_pow' (by decide)⟩

/-! ## The rows -/

/-- The row of a logarithm. -/
def rowOf (count : Counts) (i : Nat) : Row := row count (if i = 0 then 0 else 2 ^ i) (2 ^ (i + 1) - 1) i

theorem histogram_eq (count : Counts) : histogram count = (List.range 20).map (rowOf count) := rfl

theorem contains_rowOf (count : Counts) (i : Nat) (d : UInt64) :
    (rowOf count i).Contains d ↔ Nat.log 2 d.toNat = i := by
  have hhigh : (d.toNat : Int) ≤ 2 ^ (i + 1) - 1 ↔ d.toNat < 2 ^ (i + 1) := by
    have hcast : ((2 ^ (i + 1) : Nat) : Int) = 2 ^ (i + 1) := by norm_cast
    omega
  rw [Row.Contains, show (rowOf count i).high = 2 ^ (i + 1) - 1 from rfl, hhigh]
  rcases Nat.eq_zero_or_pos i with rfl | hi
  · have hlog : Nat.log 2 d.toNat = 0 ↔ d.toNat < 2 := by rw [Nat.log_eq_zero_iff]; omega
    exact ⟨fun h => hlog.mpr h.2, fun h => ⟨Int.natCast_nonneg _, hlog.mp h⟩⟩
  · have hlow : (rowOf count i).low ≤ (d.toNat : Int) ↔ 2 ^ i ≤ d.toNat := by
      simp only [rowOf, row, Nat.ne_of_gt hi, if_false]
      norm_cast
    rw [hlow, Nat.log_eq_iff (.inl (Nat.ne_of_gt hi))]

theorem mem_histogram {count : Counts} {r : Row} : r ∈ histogram count ↔ ∃ i < 20, rowOf count i = r := by
  rw [histogram_eq]
  simp

/-- The counts of the first `n` values of `f` sum to the number of elements. -/
theorem sum_countP {α : Type} (f : α → Nat) {l : List α} {n : Nat} (h : ∀ a ∈ l, f a < n) :
    ((List.range n).map fun i => l.countP (f · = i)).sum = l.length := by
  have hcard : ∑ i ∈ Finset.range n, Multiset.count i (l.map f : Multiset Nat) = l.length := by
    rw [Multiset.sum_count_eq_card (by simpa using h), Multiset.coe_card, List.length_map]
  rw [← hcard]
  refine congrArg List.sum (List.map_congr_left fun i _ => ?_)
  rw [Multiset.coe_count, List.count_eq_countP, List.countP_map]
  rfl

/-! ## The events -/

theorem handleEvent_eq {count : Counts} {d : UInt64} (h : d.toNat < 2 ^ 20)
    (hroom : (count (Nat.log 2 d.toNat)).toInt < 2 ^ 31 - 1) : handleEvent count d =
      some (Function.update count (Nat.log 2 d.toNat) (count (Nat.log 2 d.toNat) + 1)) := by
  have hsize : Nat.log 2 d.toNat < countSize := Nat.lt_trans (log_lt_twenty.mpr h) (by decide)
  have hmax : count (Nat.log 2 d.toNat) ≠ Int32.maxValue := by
    intro heq
    rw [heq, Int32.toInt_maxValue] at hroom
    omega
  rw [handleEvent, indexOf_eq (by omega)]
  simp [hsize, hmax]

theorem Fits.of_append {ds : List UInt64} {d : UInt64} (h : Fits (ds ++ [d])) : Fits ds where
  small e he := h.small e (List.mem_append_left _ he)
  count i hi := by
    have := h.count i hi
    rw [List.countP_append] at this
    omega

/-- While the condition holds a count is the number of the events of its logarithm. -/
theorem counts_of_fits {ds : List UInt64} (h : Fits ds) : ∃ count, ds.foldlM handleEvent zeroCounts = some count ∧
    ∀ i, (count i).toInt = ds.countP (Nat.log 2 ·.toNat = i) := by
  induction ds using List.reverseRecOn with
  | nil => exact ⟨zeroCounts, rfl, fun _ => rfl⟩
  | append_singleton ds d ih =>
    obtain ⟨count, hrun, hcount⟩ := ih h.of_append
    have hsmall := h.small d (by simp)
    have hroom := h.count _ (log_lt_twenty.mpr hsmall)
    simp only [List.countP_append, List.countP_singleton, decide_true, if_true] at hroom
    have hstep := handleEvent_eq hsmall (show (count _).toInt < _ by rw [hcount]; omega)
    refine ⟨_, by rw [List.foldlM_append, hrun]; simpa using hstep, fun i => ?_⟩
    rw [List.countP_append, List.countP_singleton]
    by_cases hi : Nat.log 2 d.toNat = i
    · subst hi
      rw [Function.update_self, Int32.toInt_add, hcount, Int32.toInt_one, Int.bmod_eq_of_le (by omega) (by omega)]
      simp
    · rw [Function.update_of_ne (Ne.symm hi), hcount]
      simp [hi]

theorem Accounted.small {ds : List UInt64} (h : Accounted ds) : ∀ d ∈ ds, d.toNat < 2 ^ 20 := by
  obtain ⟨count, -, hone, -⟩ := h
  intro d hd
  obtain ⟨r, ⟨hr, hcontains⟩, -⟩ := hone d hd
  obtain ⟨i, hi, rfl⟩ := mem_histogram.mp hr
  exact log_lt_twenty.mp ((contains_rowOf count i d).mp hcontains ▸ hi)

theorem Accounted.count_lt {ds : List UInt64} (h : Accounted ds) {i : Nat} (hi : i < 20) :
    ds.countP (Nat.log 2 ·.toNat = i) < 2 ^ 31 := by
  obtain ⟨count, -, -, hcount, -⟩ := h
  have hrow := hcount _ (mem_histogram.mpr ⟨i, hi, rfl⟩)
  simp only [contains_rowOf] at hrow
  have := Int32.toInt_lt (rowOf count i).count
  omega

/-- The law holds of a sequence of events if and only if every duration is below 2^20 and no
    count overflows. -/
theorem accounted_iff (delays : List UInt64) : Accounted delays ↔ Fits delays := by
  constructor
  · exact fun h => ⟨h.small, fun i hi => h.count_lt hi⟩
  · intro h
    obtain ⟨count, hrun, hcount⟩ := counts_of_fits h
    refine ⟨count, hrun, fun d hd => ⟨rowOf count (Nat.log 2 d.toNat), ⟨?_, ?_⟩, ?_⟩, ?_, ?_⟩
    · exact mem_histogram.mpr ⟨_, log_lt_twenty.mpr (h.small d hd), rfl⟩
    · exact (contains_rowOf count _ d).mpr rfl
    · rintro r ⟨hr, hcontains⟩
      obtain ⟨i, -, rfl⟩ := mem_histogram.mp hr
      rw [(contains_rowOf count i d).mp hcontains]
    · intro r hr
      obtain ⟨i, -, rfl⟩ := mem_histogram.mp hr
      simp only [contains_rowOf]
      exact hcount i
    · have hsum := sum_countP (Nat.log 2 ·.toNat) fun d hd => log_lt_twenty.mpr (h.small d hd)
      have hmap : (histogram count).map (·.count.toInt) =
          ((List.range 20).map fun i => delays.countP (Nat.log 2 ·.toNat = i)).map (Nat.cast : Nat → Int) := by
        rw [histogram_eq, List.map_map, List.map_map]
        exact List.map_congr_left fun i _ => hcount i
      rw [hmap, ← Nat.cast_list_sum, hsum]

/-- 33.5 seconds, in microseconds. -/
theorem long_delay_is_stored_outside :
    indexOf (2 ^ 25) = countSize ∧ handleEvent zeroCounts (2 ^ 25) = none ∧ ¬ Accounted [2 ^ 25] := by
  have hindex : indexOf (2 ^ 25) = countSize := (indexOf_eq (by decide)).trans (Nat.log_pow Nat.one_lt_two 25)
  refine ⟨hindex, by rw [handleEvent, hindex]; rfl, fun h => ?_⟩
  exact absurd (h.small _ (List.mem_singleton_self _)) (by decide)

theorem wrapped_delay : indexOf (2 ^ 32) = 0 ∧ ¬ Accounted [2 ^ 32] := by
  refine ⟨?_, fun h => absurd (h.small _ (List.mem_singleton_self _)) (by decide)⟩
  rw [indexOf, show (toInt (2 ^ 32)).toInt = (0 : Nat) by decide, halvings_eq, Nat.log_zero_right]

end Ksight.CpuWatcher.Histogram

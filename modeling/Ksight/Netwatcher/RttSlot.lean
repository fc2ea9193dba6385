/-
  Ksight.Netwatcher.RttSlot — the slot of a round-trip time
  (src/net/netwatcher/bpf/common.bpf.h: `log2`, `log2l`; bpf/tcp.bpf.h:
  `__tcp_rcv_established`).

  `log2` halves the width in which the highest bit can be, four times, without a branch.
  `toNat_log2` and `toNat_log2l`: they are the logarithm, rounded down, and 0 of 0.
  `val_slotOf`: a sample is in the slot of its logarithm, or in the last one.

  The law (`log2l_is_log`): `log2l` is the exponent of the power of two below, so that it is
  monotone, and the slots have ranges of samples that follow one another. What carries the
  last is `le_slotOf_iff`: a sample reaches a slot if and only if it reaches the slot's lower
  end (`lowest`).
-/

import Mathlib.Algebra.Ring.Nat
import Mathlib.Data.Nat.Log
import Mathlib.Order.Interval.Set.Defs

namespace Ksight.Netwatcher.Rtt

/-- `(v > lim) << e`. -/
def gt (v lim e : UInt32) : UInt32 := (if v > lim then 1 else 0) <<< e

def log2 (v : UInt32) : UInt64 :=
  let r := gt v 0xFFFF 4
  let v := v >>> r
  let shift := gt v 0xFF 3
  let v := v >>> shift
  let r := r ||| shift
  let shift := gt v 0xF 2
  let v := v >>> shift
  let r := r ||| shift
  let shift := gt v 0x3 1
  let v := v >>> shift
  let r := r ||| shift
  let r := r ||| (v >>> 1)
  r.toUInt64

def log2l (v : UInt64) : UInt64 :=
  let hi := (v >>> 32).toUInt32
  if hi ≠ 0 then log2 hi + 32 else log2 v.toUInt32

def maxSlots : Nat := 27

/-- `srtt_us` counts eighths. -/
def srttOf (srttUs : UInt32) : UInt32 := srttUs >>> 3

def slotOf (srtt : UInt32) : Fin maxSlots :=
  let slot := log2l srtt.toUInt64
  if h : slot.toNat < maxSlots then ⟨slot.toNat, h⟩ else ⟨maxSlots - 1, by decide⟩

/-! ## The logarithm -/

/-- One halving: what is shifted out is counted, and half the width is left. -/
theorem gt_spec (v lim e k : UInt32) (hlim : lim.toNat + 1 = 2 ^ k.toNat) (hk : 1 <<< e = k) (hk32 : k.toNat < 32)
    (h0 : (0 : UInt32) <<< e = 0) :
    (gt v lim e = 0 ∨ gt v lim e = k) ∧
      Nat.log 2 v.toNat = (gt v lim e).toNat + Nat.log 2 (v >>> gt v lim e).toNat ∧
      (v.toNat < 2 ^ (2 * k.toNat) → (v >>> gt v lim e).toNat < 2 ^ k.toNat) := by
  by_cases hv : v > lim
  · have hgt : gt v lim e = k := by rw [gt, if_pos hv, hk]
    have hle : 2 ^ k.toNat ≤ v.toNat := by
      have := UInt32.lt_iff_toNat_lt.mp hv
      omega
    have hshift : (v >>> k).toNat = v.toNat / 2 ^ k.toNat := by
      rw [UInt32.toNat_shiftRight, Nat.mod_eq_of_lt hk32, Nat.shiftRight_eq_div_pow]
    rw [hgt, hshift]
    refine ⟨.inr rfl, ?_, fun hlt => ?_⟩
    · have hlog : k.toNat ≤ Nat.log 2 v.toNat :=
        Nat.le_log_of_pow_le Nat.one_lt_two hle
      rw [Nat.log_div_base_pow]
      omega
    · rw [Nat.div_lt_iff_lt_mul (Nat.two_pow_pos _), ← Nat.pow_add]
      rwa [← Nat.two_mul]
  · have hgt : gt v lim e = 0 := by rw [gt, if_neg hv, h0]
    rw [hgt]
    refine ⟨.inl rfl, by simp, fun _ => ?_⟩
    have := UInt32.le_iff_toNat_le.mp (UInt32.not_lt.mp hv)
    rw [UInt32.shiftRight_zero]
    omega

/-- What is left after four halvings is its own logarithm, shifted by 1. -/
theorem log_of_lt_four {v : UInt32} (h : v.toNat < 4) :
    (v >>> 1 = 0 ∨ v >>> 1 = 1) ∧ Nat.log 2 v.toNat = (v >>> 1).toNat := by
  have hv : v = 0 ∨ v = 1 ∨ v = 2 ∨ v = 3 := by
    simp only [← UInt32.toNat_inj]
    change v.toNat = 0 ∨ v.toNat = 1 ∨ v.toNat = 2 ∨ v.toNat = 3
    omega
  rcases hv with rfl | rfl | rfl | rfl
  · exact ⟨.inl rfl, rfl⟩
  · exact ⟨.inl rfl, Nat.log_eq_of_pow_le_of_lt_pow (by decide) (by decide)⟩
  · exact ⟨.inr rfl, Nat.log_eq_of_pow_le_of_lt_pow (by decide) (by decide)⟩
  · exact ⟨.inr rfl, Nat.log_eq_of_pow_le_of_lt_pow (by decide) (by decide)⟩

/-- The bits of the result are put together by `or` and are different ones. -/
theorem toNat_or {a b c d e : UInt32} (ha : a = 0 ∨ a = 16) (hb : b = 0 ∨ b = 8) (hc : c = 0 ∨ c = 4)
    (hd : d = 0 ∨ d = 2) (he : e = 0 ∨ e = 1) :
    (a ||| b ||| c ||| d ||| e).toNat = a.toNat + b.toNat + c.toNat + d.toNat + e.toNat := by
  rcases ha with rfl | rfl <;> rcases hb with rfl | rfl <;> rcases hc with rfl | rfl <;>
    rcases hd with rfl | rfl <;> rcases he with rfl | rfl <;> rfl

theorem toNat_log2 (v : UInt32) : (log2 v).toNat = Nat.log 2 v.toNat := by
  obtain ⟨h1, hlog1, hlt1⟩ := gt_spec v 0xFFFF 4 16 rfl rfl (by decide) rfl
  have hv1 := hlt1 v.toNat_lt
  obtain ⟨h2, hlog2, hlt2⟩ := gt_spec (v >>> gt v 0xFFFF 4) 0xFF 3 8 rfl rfl (by decide) rfl
  have hv2 := hlt2 hv1
  obtain ⟨h3, hlog3, hlt3⟩ := gt_spec _ 0xF 2 4 rfl rfl (by decide) rfl
  have hv3 := hlt3 hv2
  obtain ⟨h4, hlog4, hlt4⟩ := gt_spec _ 0x3 1 2 rfl rfl (by decide) rfl
  have hv4 := hlt4 hv3
  obtain ⟨h5, hlog5⟩ := log_of_lt_four hv4
  rw [hlog1, hlog2, hlog3, hlog4, hlog5]
  simp only [log2, UInt32.toNat_toUInt64]
  rw [toNat_or h1 h2 h3 h4 h5]
  omega

theorem toNat_log2l (v : UInt64) : (log2l v).toNat = Nat.log 2 v.toNat := by
  have hhi : ((v >>> 32).toUInt32).toNat = v.toNat / 2 ^ 32 := by
    have := v.toNat_lt
    rw [UInt64.toNat_toUInt32, UInt64.toNat_shiftRight, Nat.shiftRight_eq_div_pow]
    change v.toNat / 2 ^ 32 % 2 ^ 32 = _
    omega
  unfold log2l
  by_cases h : (v >>> 32).toUInt32 = 0
  · -- the upper half is 0
    have hz : v.toNat / 2 ^ 32 = 0 := by rw [← hhi, h]; rfl
    have hlow : v.toUInt32.toNat = v.toNat := by
      rw [UInt64.toNat_toUInt32]
      omega
    simp only [ne_eq, h, not_true_eq_false, if_false]
    rw [toNat_log2, hlow]
  · have hne : v.toNat / 2 ^ 32 ≠ 0 := fun hz => h (UInt32.toNat_inj.mp (hhi.trans hz))
    have hge : 32 ≤ Nat.log 2 v.toNat := Nat.le_log_of_pow_le Nat.one_lt_two (by omega)
    have hlog : (log2 (v >>> 32).toUInt32).toNat = Nat.log 2 v.toNat - 32 := by
      rw [toNat_log2, hhi, Nat.log_div_base_pow]
    have hlt : Nat.log 2 v.toNat < 64 := Nat.log_lt_of_lt_pow (by omega) v.toNat_lt
    simp only [ne_eq, h, not_false_eq_true, if_true]
    rw [UInt64.toNat_add, hlog]
    change (Nat.log 2 v.toNat - 32 + 32) % 2 ^ 64 = _
    omega

theorem val_slotOf (srtt : UInt32) : (slotOf srtt).val = min (Nat.log 2 srtt.toNat) 26 := by
  have hslot : (log2l srtt.toUInt64).toNat = Nat.log 2 srtt.toNat := by
    rw [toNat_log2l, UInt32.toNat_toUInt64]
  by_cases h : (log2l srtt.toUInt64).toNat < maxSlots
  · have hval : (slotOf srtt).val = (log2l srtt.toUInt64).toNat := by simp [slotOf, h]
    rw [hslot, maxSlots] at h
    rw [hval, hslot]
    omega
  · have hval : (slotOf srtt).val = 26 := by
      unfold slotOf
      rw [dif_neg h]
      rfl
    rw [hslot, maxSlots] at h
    rw [hval]
    omega

theorem log2l_eq_iff {v : UInt64} (hv : 1 ≤ v) (k : Nat) :
    (log2l v).toNat = k ↔ 2 ^ k ≤ v.toNat ∧ v.toNat < 2 ^ (k + 1) := by
  have hpos : 1 ≤ v.toNat := UInt64.le_iff_toNat_le.mp hv
  have hne : v.toNat ≠ 0 := by omega
  rw [toNat_log2l, Nat.log_eq_iff (.inr ⟨Nat.one_lt_two, hne⟩)]

theorem log2l_mono {v w : UInt64} (h : v ≤ w) : log2l v ≤ log2l w := by
  rw [UInt64.le_iff_toNat_le] at h ⊢
  rw [toNat_log2l, toNat_log2l]
  exact Nat.log_mono_right h

/-! ## The ranges of the slots -/

/-- The lower end of a slot; the last slot ends with the type. -/
def lowest (s : Nat) : Nat := if s = 0 then 0 else if s < maxSlots then 2 ^ s else 2 ^ 32

/-- The samples of a slot. -/
def range (s : Fin maxSlots) : Set Nat := Set.Ico (lowest s) (lowest (s + 1))

theorem le_slotOf_iff (srtt : UInt32) (s : Nat) : s ≤ (slotOf srtt).val ↔ lowest s ≤ srtt.toNat := by
  have hlt := srtt.toNat_lt
  rw [val_slotOf, lowest]
  rcases Nat.eq_zero_or_pos s with rfl | hs
  · simp
  rw [if_neg (by omega)]
  by_cases hmax : s < maxSlots
  · have hlog : s ≤ Nat.log 2 srtt.toNat ↔ 2 ^ s ≤ srtt.toNat := by
      constructor
      · intro h
        apply Nat.pow_le_of_le_log _ h
        intro hzero
        rw [hzero, Nat.log_zero_right] at h
        omega
      · intro h
        exact Nat.le_log_of_pow_le Nat.one_lt_two h
    rw [if_pos hmax, ← hlog]
    unfold maxSlots at hmax
    omega
  · -- there is no such slot
    rw [if_neg hmax]
    unfold maxSlots at hmax
    omega

theorem slotOf_eq_iff (srtt : UInt32) (s : Fin maxSlots) : slotOf srtt = s ↔ srtt.toNat ∈ range s := by
  have hlow := le_slotOf_iff srtt s
  have hhigh := le_slotOf_iff srtt (s + 1)
  rw [range, Set.mem_Ico, Fin.ext_iff]
  omega

theorem lowest_mono : Monotone lowest := by
  intro s t h
  have hpow : 2 ^ s ≤ 2 ^ t := Nat.pow_le_pow_right Nat.two_pos h
  unfold lowest maxSlots
  split
  · exact Nat.zero_le _
  · split
    · rename_i hs
      have hlim : 2 ^ s ≤ 2 ^ 32 := Nat.pow_le_pow_right Nat.two_pos (by omega)
      rw [if_neg (by omega)]
      split
      · exact hpow
      · exact hlim
    · rw [if_neg (by omega), if_neg (by omega)]

/-- The samples of a slot are below those of the slots after it. -/
theorem lt_of_mem_range {s t : Fin maxSlots} (h : s < t) {m n : Nat} (hm : m ∈ range s) (hn : n ∈ range t) :
    m < n := by
  have hle : lowest (s + 1) ≤ lowest t := lowest_mono (Nat.succ_le_of_lt h)
  exact hm.2.trans_le (hle.trans hn.1)

theorem not_mem_range {s t : Fin maxSlots} (hne : s ≠ t) {n : Nat} (hs : n ∈ range s) : n ∉ range t := by
  intro ht
  rcases Nat.lt_or_gt_of_ne (Fin.val_ne_of_ne hne) with h | h
  · exact absurd (lt_of_mem_range h hs ht) (Nat.lt_irrefl n)
  · exact absurd (lt_of_mem_range h ht hs) (Nat.lt_irrefl n)

/-- `log2l` is the logarithm, and the slots are disjoint ranges in increasing order. -/
theorem log2l_is_log :
    (∀ v : UInt64, 1 ≤ v → ∀ k : Nat, (log2l v).toNat = k ↔ 2 ^ k ≤ v.toNat ∧ v.toNat < 2 ^ (k + 1)) ∧
      log2l 0 = 0 ∧
      (∀ v w : UInt64, v ≤ w → log2l v ≤ log2l w) ∧
      (∀ srtt s, slotOf srtt = s ↔ srtt.toNat ∈ range s) ∧
      (∀ s t, s ≠ t → ∀ n ∈ range s, n ∉ range t) ∧
      ∀ s t, s < t → ∀ m ∈ range s, ∀ n ∈ range t, m < n := by
  refine ⟨fun v hv k => log2l_eq_iff hv k, ?_, fun v w h => log2l_mono h, slotOf_eq_iff, ?_, ?_⟩
  · rw [← UInt64.toNat_inj, toNat_log2l]
    exact Nat.log_zero_right 2
  · intro s t hne n hs
    exact not_mem_range hne hs
  · intro s t h m hm n hn
    exact lt_of_mem_range h hm hn

/-- The worked examples of the source. -/
theorem worked_examples : log2l 16384 = 14 ∧ log2l 4294967296 = 32 :=
  ⟨UInt64.toNat_inj.mp ((log2l_is_log.1 16384 (by decide) 14).mpr ⟨by decide, by decide⟩),
    UInt64.toNat_inj.mp ((log2l_is_log.1 4294967296 (by decide) 32).mpr ⟨by decide, by decide⟩)⟩

end Ksight.Netwatcher.Rtt

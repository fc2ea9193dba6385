/-
  Ksight.Lib.OddHash — the multiplicative hash `c * x % M` of the numbers below `M`, where `c`
  has no divisor in common with `M`; for a power of two, where `c` is odd.

  The hash permutes the numbers below `M` (`hash_image`), and among them the multiples of each
  divisor of `M` (`dvd_hash`).

  - `card_hits`: of the multiples of a divisor `d`, those whose hash is a multiple of `m` are as
    many as the multiples of `d` and `m`. A hash does not spread multiples of `d` over the
    remainders modulo `m` where `d` and `m` have a divisor in common.
-/

import Mathlib.Data.Int.CardIntervalMod

namespace Ksight.Lib.OddHash

variable {M c : Nat}

def hash (M c x : Nat) : Nat := c * x % M

theorem hash_injOn (hc : Nat.Coprime c M) : Set.InjOn (hash M c) (Finset.range M) := by
  intro x hx y hy h
  have hx' : x < M := Finset.mem_range.mp hx
  have hy' : y < M := Finset.mem_range.mp hy
  have hmod : x ≡ y [MOD M] := Nat.ModEq.cancel_left_of_coprime (Nat.coprime_comm.mp hc) h
  exact hmod.eq_of_lt_of_lt hx' hy'

theorem hash_image (hc : Nat.Coprime c M) : (Finset.range M).image (hash M c) = Finset.range M := by
  refine Finset.eq_of_subset_of_card_le ?_ ?_
  · intro y hy
    obtain ⟨x, hx, rfl⟩ := Finset.mem_image.mp hy
    exact Finset.mem_range.mpr (Nat.mod_lt _ (Nat.zero_lt_of_lt (Finset.mem_range.mp hx)))
  · rw [Finset.card_image_of_injOn (hash_injOn hc)]

theorem dvd_hash {d : Nat} (hc : Nat.Coprime c M) (hd : d ∣ M) (x : Nat) : d ∣ hash M c x ↔ d ∣ x := by
  rw [hash, Nat.dvd_mod_iff hd]
  exact (Nat.Coprime.coprime_dvd_right hd hc).symm.dvd_mul_left

/-- What is asked of the hashes is asked of the numbers. -/
theorem card_filter_hash (hc : Nat.Coprime c M) (p : Nat → Prop) [DecidablePred p] :
    ((Finset.range M).filter fun x => p (hash M c x)).card = ((Finset.range M).filter p).card := by
  calc ((Finset.range M).filter fun x => p (hash M c x)).card
      = (((Finset.range M).filter fun x => p (hash M c x)).image (hash M c)).card :=
        (Finset.card_image_of_injOn ((hash_injOn hc).mono (Finset.filter_subset _ _))).symm
    _ = (((Finset.range M).image (hash M c)).filter p).card := by rw [Finset.filter_image]
    _ = ((Finset.range M).filter p).card := by rw [hash_image hc]

theorem card_multiples {l : Nat} (hl : 0 < l) (M : Nat) :
    ((Finset.range M).filter fun x => l ∣ x).card = (M + l - 1) / l := by
  have hcount := Nat.count_modEq_card M hl 0
  have hdvd : (fun x => x ≡ 0 [MOD l]) = fun x => l ∣ x := funext fun x => propext Nat.modEq_zero_iff_dvd
  simp only [hdvd, Nat.count_eq_card_filter_range] at hcount
  rw [hcount]
  have hsplit := Nat.div_add_mod M l
  have hlt := Nat.mod_lt M hl
  have hzero := Nat.zero_mod l
  symm
  by_cases hr : 0 % l < M % l
  · rw [if_pos hr, Nat.div_eq_iff hl, Nat.add_mul, Nat.mul_comm (M / l)]
    omega
  · rw [if_neg hr, Nat.div_eq_iff hl, Nat.add_zero, Nat.mul_comm (M / l)]
    omega

theorem card_hits {d m : Nat} (hc : Nat.Coprime c M) (hd : d ∣ M) (hpos : 0 < d) (hm : 0 < m) :
    ((Finset.range M).filter fun x => d ∣ x ∧ m ∣ hash M c x).card = (M + Nat.lcm d m - 1) / Nat.lcm d m := by
  have hfilter : ((Finset.range M).filter fun x => d ∣ x ∧ m ∣ hash M c x) =
      (Finset.range M).filter fun x => Nat.lcm d m ∣ hash M c x := by
    refine Finset.filter_congr fun x _ => ?_
    rw [Nat.lcm_dvd_iff, dvd_hash hc hd]
  rw [hfilter, card_filter_hash hc (Nat.lcm d m ∣ ·)]
  exact card_multiples (Nat.lcm_pos hpos hm) M

end Ksight.Lib.OddHash

/-
  Ksight.Lib.LiuLayland — the utilization bound of rate-monotonic scheduling.

  `llBound n` bounds the utilization of `n` tasks. `le_llBound_iff` is the bound without
  its root; by Bernoulli's inequality the power it compares grows with `n`, so the bound
  falls (`llBound_anti`): a set of tasks that meets it still does when tasks leave.
-/

import Mathlib.Analysis.Convex.SpecificFunctions.Basic

namespace Ksight.Lib

noncomputable def llBound (n : ℕ) : ℝ := n * ((2 : ℝ) ^ (1 / (n : ℝ)) - 1)

/-- The bound, and the same without its root. -/
def LiuLayland (u : ℝ) (n : ℕ) : Prop := u ≤ n * ((2 : ℝ) ^ (1 / (n : ℝ)) - 1) ∧ (1 + u / n) ^ n ≤ 2

variable {u : ℝ} {m n : ℕ}

theorem llBound_nonneg (n : ℕ) : 0 ≤ llBound n :=
  mul_nonneg (Nat.cast_nonneg n) (sub_nonneg.mpr (Real.one_le_rpow one_le_two (by positivity)))

theorem le_llBound_iff (hu : 0 ≤ u) (hn : 0 < n) : u ≤ llBound n ↔ (1 + u / n) ^ n ≤ 2 := by
  have hn' : (0 : ℝ) < n := Nat.cast_pos.mpr hn
  have hx : 0 ≤ 1 + u / n := by positivity
  rw [llBound, ← div_le_iff₀' hn', le_sub_iff_add_le', one_div, Real.le_rpow_inv_iff_of_pos hx two_pos.le hn',
    Real.rpow_natCast]

theorem liuLayland_iff (hu : 0 ≤ u) (hn : 0 < n) : LiuLayland u n ↔ u ≤ llBound n :=
  and_iff_left_of_imp (le_llBound_iff hu hn).mp

theorem one_add_div_pow_mono (hu : 0 ≤ u) (hm : 0 < m) (h : m ≤ n) : (1 + u / m) ^ m ≤ (1 + u / n) ^ n := by
  have hm' : (0 : ℝ) < m := Nat.cast_pos.mpr hm
  have hn' : (0 : ℝ) < n := Nat.cast_pos.mpr (hm.trans_le h)
  have hs : 0 ≤ u / n := by positivity
  have hp : (1 : ℝ) ≤ n / m := (one_le_div hm').mpr (Nat.cast_le.mpr h)
  have hb : 1 + (n / m : ℝ) * (u / n) ≤ (1 + u / n) ^ (n / m : ℝ) :=
    one_add_mul_self_le_rpow_one_add (by linarith) hp
  calc (1 + u / m) ^ m = (1 + (n / m : ℝ) * (u / n)) ^ m := by congr 2; field_simp
    _ ≤ ((1 + u / n) ^ (n / m : ℝ)) ^ m := pow_le_pow_left₀ (by positivity) hb m
    _ = (1 + u / n) ^ n := by
      rw [← Real.rpow_natCast, ← Real.rpow_mul (by positivity), div_mul_cancel₀ _ hm'.ne', Real.rpow_natCast]

theorem llBound_anti (hm : 0 < m) (h : m ≤ n) : llBound n ≤ llBound m := by
  have hn := (le_llBound_iff (llBound_nonneg n) (hm.trans_le h)).mp le_rfl
  exact (le_llBound_iff (llBound_nonneg n) hm).mpr ((one_add_div_pow_mono (llBound_nonneg n) hm h).trans hn)

end Ksight.Lib

/-
  Ksight.Wirefisher.SmoothRate — the smoothed rate never exceeds the peak
  (src/net/wirefisher/include/common.h: `update_flow_rate`).

  A call that closes a window computes its rate, takes it for the peak if it is larger, and
  moves the smoothed rate an eighth of the way to it. An eighth is a shift that truncates,
  once for each of the two rates; a smoothed rate of 0 starts again at the window's rate.

  The law (`smooth_le_peak`): after any calls, whatever the clock reads, the smoothed rate is
  at most the peak, the peak is the maximum of the rates computed so far, and the next update
  neither underflows nor overflows. What carries it is `decay_add_le`: with both rates at
  most `p`, what is left of the one and what is taken of the other are at most `p` together,
  since `n - n / 8` grows with `n`.
-/

import Ksight.Wirefisher.FlowRate

namespace Ksight.Wirefisher.SmoothRate

structure Call where
  now : UInt64
  packetSize : UInt32

/-- A record, and the rates of the windows that were closed, the latest first. -/
structure Watched where
  flow : FlowRateInfo
  rates : List UInt64

/-- The call closes the window. -/
def Call.closes (c : Call) (f : FlowRateInfo) : Prop := c.now - f.lastNs ≥ 1000000000

instance (c : Call) (f : FlowRateInfo) : Decidable (c.closes f) := inferInstanceAs (Decidable (_ ≥ _))

def Watched.call (w : Watched) (c : Call) : Watched where
  flow := updateFlowRate c.now w.flow c.packetSize
  rates :=
    if c.closes w.flow then (updateFlowRate c.now w.flow c.packetSize).instanceRateBps :: w.rates else w.rates

def afterCalls (f : FlowRateInfo) (calls : List Call) : Watched := calls.foldl Watched.call ⟨f, []⟩

/-- A record that has just been created. -/
structure Fresh (f : FlowRateInfo) : Prop where
  rate : f.rateBps = 0
  inst : f.instanceRateBps = 0
  peak : f.peakRateBps = 0
  smooth : f.smoothRateBps = 0

theorem newFlow_fresh (now : UInt64) (len : UInt32) : Fresh (newFlow now len) := ⟨rfl, rfl, rfl, rfl⟩

/-! ## The law -/

/-- The maximum of the rates, 0 where there are none. -/
structure IsPeak (peak : UInt64) (rates : List UInt64) : Prop where
  le : ∀ r ∈ rates, r ≤ peak
  mem : rates ≠ [] → peak ∈ rates
  zero : rates = [] → peak = 0

/-- `(s - (s >> 3)) + (i >> 3)` is what it is without a limit to the numbers. -/
def NoWrap (s i : UInt64) : Prop :=
  s >>> 3 ≤ s ∧ (s - (s >>> 3)).toNat + (i >>> 3).toNat < 2 ^ 64

/-! ## An eighth -/

theorem toNat_eighth (n : UInt64) : (n >>> 3).toNat = n.toNat / 8 := by
  rw [UInt64.toNat_shiftRight, Nat.shiftRight_eq_div_pow]
  rfl

theorem eighth_le (n : UInt64) : n >>> 3 ≤ n := by
  rw [UInt64.le_iff_toNat_le, toNat_eighth]
  omega

theorem toNat_decay (s : UInt64) : (s - (s >>> 3)).toNat = s.toNat - s.toNat / 8 := by
  rw [UInt64.toNat_sub_of_le _ _ (eighth_le s), toNat_eighth]

theorem noWrap (s i : UInt64) : NoWrap s i := by
  refine ⟨eighth_le s, ?_⟩
  have hs := s.toNat_lt
  have hi := i.toNat_lt
  rw [toNat_decay, toNat_eighth]
  omega

theorem toNat_decay_add (s i : UInt64) :
    (s - (s >>> 3) + (i >>> 3)).toNat = s.toNat - s.toNat / 8 + i.toNat / 8 := by
  have hlt := (noWrap s i).2
  rw [UInt64.toNat_add, Nat.mod_eq_of_lt hlt, toNat_decay, toNat_eighth]

theorem decay_add_le {s i p : UInt64} (hs : s ≤ p) (hi : i ≤ p) : s - (s >>> 3) + (i >>> 3) ≤ p := by
  rw [UInt64.le_iff_toNat_le] at hs hi ⊢
  rw [toNat_decay_add]
  omega

/-! ## One call -/

structure Good (w : Watched) : Prop where
  smooth : w.flow.smoothRateBps ≤ w.flow.peakRateBps
  peak : IsPeak w.flow.peakRateBps w.rates

theorem IsPeak.cons {peak r : UInt64} {rates : List UInt64} (h : IsPeak peak rates) :
    IsPeak (if r > peak then r else peak) (r :: rates) := by
  have hmax : ∀ n, n ≤ peak → n ≤ if r > peak then r else peak := by
    intro n hn
    split
    · exact UInt64.le_trans hn (UInt64.le_of_lt ‹_›)
    · exact hn
  refine ⟨fun n hn => ?_, fun _ => ?_, nofun⟩
  · rcases List.mem_cons.mp hn with rfl | hn
    · split
      · exact UInt64.le_refl _
      · exact UInt64.not_lt.mp ‹_›
    · exact hmax n (h.le n hn)
  · split
    · exact List.mem_cons_self
    · rename_i hle
      rcases rates with _ | ⟨n, rates⟩
      · -- the first rate is no larger than the peak, so it is 0 itself
        have hr : r ≤ 0 := h.zero rfl ▸ UInt64.not_lt.mp hle
        rw [h.zero rfl, UInt64.le_antisymm hr UInt64.zero_le]
        exact List.mem_cons_self
      · exact List.mem_cons_of_mem r (h.mem nofun)

/-- The update after a window's rate is known. -/
theorem updateFlowRate_closes {c : Call} {f : FlowRateInfo} (h : c.closes f) :
    let g := updateFlowRate c.now f c.packetSize
    g.peakRateBps = (if g.instanceRateBps > f.peakRateBps then g.instanceRateBps else f.peakRateBps) ∧
      g.smoothRateBps =
        if f.smoothRateBps ≠ 0 then f.smoothRateBps - (f.smoothRateBps >>> 3) + (g.instanceRateBps >>> 3)
        else g.instanceRateBps := by
  unfold Call.closes at h
  dsimp only [updateFlowRate]
  rw [if_pos h]
  exact ⟨rfl, rfl⟩

/-- The window goes on. -/
theorem updateFlowRate_stays {c : Call} {f : FlowRateInfo} (h : ¬ c.closes f) :
    let g := updateFlowRate c.now f c.packetSize
    g.peakRateBps = f.peakRateBps ∧ g.smoothRateBps = f.smoothRateBps := by
  unfold Call.closes at h
  dsimp only [updateFlowRate]
  rw [if_neg h]
  exact ⟨rfl, rfl⟩

theorem Good.call {w : Watched} (h : Good w) (c : Call) : Good (w.call c) := by
  by_cases hc : c.closes w.flow
  · obtain ⟨hpeak, hsmooth⟩ := updateFlowRate_closes hc
    have hrates : (w.call c).rates = (w.call c).flow.instanceRateBps :: w.rates := if_pos hc
    have hnew : IsPeak (w.call c).flow.peakRateBps (w.call c).rates := by
      rw [hrates, Watched.call, hpeak]
      exact h.peak.cons
    refine ⟨?_, hnew⟩
    -- both rates are at most the new peak
    have hinst : (w.call c).flow.instanceRateBps ≤ (w.call c).flow.peakRateBps :=
      hnew.le _ (hrates ▸ List.mem_cons_self)
    have hold : w.flow.smoothRateBps ≤ (w.call c).flow.peakRateBps := by
      refine UInt64.le_trans h.smooth ?_
      rw [Watched.call, hpeak]
      split
      · exact UInt64.le_of_lt ‹_›
      · exact UInt64.le_refl _
    rw [show (w.call c).flow.smoothRateBps = _ from hsmooth]
    split
    · exact decay_add_le hold hinst
    · exact hinst
  · obtain ⟨hpeak, hsmooth⟩ := updateFlowRate_stays hc
    have hrates : (w.call c).rates = w.rates := if_neg hc
    refine ⟨?_, ?_⟩
    · rw [Watched.call, hpeak, hsmooth]
      exact h.smooth
    · rw [hrates, Watched.call, hpeak]
      exact h.peak

theorem good_afterCalls {f : FlowRateInfo} (h : Fresh f) (calls : List Call) : Good (afterCalls f calls) := by
  have hrun : ∀ w, Good w → Good (calls.foldl Watched.call w) := by
    induction calls with
    | nil => exact fun w hw => hw
    | cons c calls ih => exact fun w hw => ih (w.call c) (hw.call c)
  apply hrun
  refine ⟨?_, nofun, fun hne => absurd rfl hne, fun _ => h.peak⟩
  show f.smoothRateBps ≤ f.peakRateBps
  rw [h.smooth, h.peak]
  exact UInt64.le_refl _

/-- After any calls the smoothed rate is at most the peak, which is the maximum of the rates,
    and no update wraps around. -/
theorem smooth_le_peak {f : FlowRateInfo} (h : Fresh f) (calls : List Call) :
    (afterCalls f calls).flow.smoothRateBps ≤ (afterCalls f calls).flow.peakRateBps ∧
      IsPeak (afterCalls f calls).flow.peakRateBps (afterCalls f calls).rates ∧
      ∀ c : Call, NoWrap (afterCalls f calls).flow.smoothRateBps
        (updateFlowRate c.now (afterCalls f calls).flow c.packetSize).instanceRateBps :=
  ⟨(good_afterCalls h calls).smooth, (good_afterCalls h calls).peak, fun _ => noWrap _ _⟩

/-- Windows of 8000, 80 and 0 bytes a second, of one second each. -/
theorem three_windows :
    let w := afterCalls (newFlow 0 8000) [⟨1000000000, 80⟩, ⟨2000000000, 0⟩, ⟨3000000000, 10⟩]
    w.rates = [0, 80, 8000] ∧ w.flow.smoothRateBps ≤ w.flow.peakRateBps :=
  ⟨by decide, (smooth_le_peak (newFlow_fresh 0 8000) _).1⟩

end Ksight.Wirefisher.SmoothRate

/-
  Ksight.Wirefisher.TimeScale — the limit the documents promise over time_scale
  (src/net/wirefisher/include/common.h: `rate_limit_check`; doc/中文/设计文档.md and
  doc/中文/使用手册.md).

  The manual promises the rate over every time_scale; the design document sizes the bucket
  at an eighth of rate * time_scale, so that a burst exceeds the limit by 12.5 percent at
  most: no window of time_scale seconds accepts more than 9/8 of rate * time_scale
  (`WithinScale`).

  `max_bucket` shifts by two, so the bucket holds a quarter. A full one and the refill of
  the window make up to 5/4 of the limit (`a_full_bucket_breaks_the_limit`), and
  `within_scale_iff`: the promise holds of a rule exactly when its bucket has no capacity
  at all, or when the rule is one of six (`tiny`) so small that the flooring of its refills
  costs more than the excess of its bucket.

  `spaced_breaks` is the run that breaks the others: a packet that empties the full bucket,
  then packets spaced so that each has been refilled when it comes.
-/

import Ksight.Wirefisher.Conformance

namespace Ksight.Wirefisher

open Ksight.Lib

def WithinScale (κ : Type) [DecidableEq κ] (cap : Nat) (r : Rule) : Prop :=
  ∀ (m : BoundedMap κ RateBucket cap) (key : κ), Room m key → ∀ ps, Clocked ps →
    ∀ pre p win post, ps = pre ++ (p :: win) ++ post →
      (lastOf p win).now.toNat - p.now.toNat ≤ r.timeScale.toNat * 1000000000 →
      8 * accepted r key (p :: win) (after r key pre m) ≤ 9 * (r.rateBps.toNat * r.timeScale.toNat)

/-- The rules (rate, time_scale) whose refills lose more to flooring than their buckets hold in excess. -/
def tiny : List (Nat × Nat) := [(3, 2), (6, 1), (7, 1), (3, 3), (9, 1), (11, 1)]

/-! ## Rules that keep the promise -/

variable {κ : Type} [DecidableEq κ] {cap : Nat} {r : Rule} {key : κ}

/-- Credits that are worth at most `2 / w` tokens a nanosecond. -/
theorem within_of_worth {w : Nat} (hw0 : 0 < w)
    (hw : ∀ ts now : UInt64, ts ≤ now →
      min (capacity r) (credit r.rateBps ts now) * w ≤ 2 * (now.toNat - ts.toNat))
    (hsum : 8 * (capacity r + 2 * (r.timeScale.toNat * 1000000000) / w) ≤
      9 * (r.rateBps.toNat * r.timeScale.toNat)) :
    WithinScale κ cap r := by
  intro m key hroom ps hclock pre p win post e hlen
  subst e
  have hc : Clocked (p :: win) := (List.pairwise_append.mp (List.pairwise_append.mp hclock).1).2.1
  have h1 := accepted_window (r := r) p win (room_after (r := r) pre hroom)
  have h2 : TokenBucket.worth (capacity r) (calls r p.now win) ≤ 2 * (r.timeScale.toNat * 1000000000) / w :=
    (Nat.le_div_iff_mul_le hw0).mpr ((worth_mul_le hw p win hc).trans (Nat.mul_le_mul_left 2 hlen))
  omega

/-- The same of a credit, from what every interval is worth. -/
theorem credit_worth {w : Nat} (hw : ∀ dt, min (capacity r) (r.rateBps.toNat * dt / 1000000000) * w ≤ 2 * dt)
    (ts now : UInt64) (h : ts ≤ now) :
    min (capacity r) (credit r.rateBps ts now) * w ≤ 2 * (now.toNat - ts.toNat) :=
  (Nat.mul_le_mul_right _ (min_le_min_left _ (credit_le r.rateBps h))).trans (hw _)

theorem capacity_eq (h : r.rateBps.toNat * r.timeScale.toNat < 2 ^ 32) :
    capacity r = r.rateBps.toNat * r.timeScale.toNat / 4 := by
  rw [capacity, Nat.mod_eq_of_lt h]

theorem within_of_empty (h : r.rateBps.toNat * r.timeScale.toNat < 4) : WithinScale κ cap r := by
  have hcap : capacity r = 0 := by rw [capacity_eq (by omega)]; omega
  intro m key hroom ps hclock pre p win post e _
  subst e
  have h1 := accepted_window (r := r) p win (room_after (r := r) pre hroom)
  have h2 : TokenBucket.worth (capacity r) (calls r p.now win) = 0 := by
    simp [TokenBucket.worth, hcap]
  omega

theorem within_of_tiny (h : (r.rateBps.toNat, r.timeScale.toNat) ∈ tiny) : WithinScale κ cap r := by
  have hcap : capacity r = r.rateBps.toNat * r.timeScale.toNat / 4 := by
    apply capacity_eq
    simp only [tiny, List.mem_cons, Prod.mk.injEq, List.not_mem_nil, or_false] at h
    rcases h with ⟨e, e'⟩ | ⟨e, e'⟩ | ⟨e, e'⟩ | ⟨e, e'⟩ | ⟨e, e'⟩ | ⟨e, e'⟩ <;> rw [e, e'] <;> decide
  simp only [tiny, List.mem_cons, Prod.mk.injEq, List.not_mem_nil, or_false] at h
  -- `w / 2` is the shortest time a token takes: the quotient of the first credit of one or two tokens
  obtain ⟨w, hw0, hw, hsum⟩ : ∃ w, 0 < w ∧
      (∀ dt, min (r.rateBps.toNat * r.timeScale.toNat / 4) (r.rateBps.toNat * dt / 1000000000) * w ≤ 2 * dt) ∧
      8 * (r.rateBps.toNat * r.timeScale.toNat / 4 + 2 * (r.timeScale.toNat * 1000000000) / w) ≤
        9 * (r.rateBps.toNat * r.timeScale.toNat) := by
    rcases h with ⟨e, e'⟩ | ⟨e, e'⟩ | ⟨e, e'⟩ | ⟨e, e'⟩ | ⟨e, e'⟩ | ⟨e, e'⟩ <;> rw [e, e']
    · exact ⟨666666668, by decide, fun dt => by omega, by decide⟩
    · exact ⟨333333334, by decide, fun dt => by omega, by decide⟩
    · exact ⟨285714286, by decide, fun dt => by omega, by decide⟩
    · exact ⟨666666667, by decide, fun dt => by omega, by decide⟩
    · exact ⟨222222223, by decide, fun dt => by omega, by decide⟩
    · exact ⟨181818182, by decide, fun dt => by omega, by decide⟩
  refine within_of_worth hw0 (credit_worth ?_) ?_
  · rw [hcap]; exact hw
  · rw [hcap]; exact hsum

/-! ## Runs that break it -/

/-- `n` packets of `g` bytes, one every `d` nanoseconds after `t`. -/
def spaced (d : UInt64) (g : UInt32) : Nat → UInt64 → List Packet
  | 0, _ => []
  | n + 1, t => ⟨t + d, g⟩ :: spaced d g n (t + d)

variable {d : UInt64} {g : UInt32}

theorem toNat_next {n : Nat} {t : UInt64} (h : t.toNat + (n + 1) * d.toNat < 2 ^ 64) :
    (t + d).toNat = t.toNat + d.toNat := by
  rw [UInt64.toNat_add, Nat.mod_eq_of_lt]
  rw [Nat.add_mul] at h; omega

theorem le_spaced (n : Nat) (t : UInt64) (h : t.toNat + n * d.toNat < 2 ^ 64) :
    ∀ q ∈ spaced d g n t, t ≤ q.now := by
  induction n generalizing t with
  | zero => simp [spaced]
  | succ n ih =>
    have hn := toNat_next h
    have hle : t ≤ t + d := UInt64.le_iff_toNat_le.mpr (by omega)
    intro q hq
    rcases List.mem_cons.mp hq with rfl | hq
    · exact hle
    · exact UInt64.le_trans hle (ih (t + d) (by rw [hn]; rw [Nat.add_mul] at h; omega) q hq)

theorem clocked_spaced (n : Nat) (t : UInt64) (h : t.toNat + n * d.toNat < 2 ^ 64) (len : UInt32) :
    Clocked (⟨t, len⟩ :: spaced d g n t) := by
  induction n generalizing t len with
  | zero => simp [spaced, Clocked]
  | succ n ih =>
    have hn := toNat_next h
    have := ih (t + d) (by rw [hn]; rw [Nat.add_mul] at h; omega) g
    exact List.pairwise_cons.mpr ⟨le_spaced (n + 1) t h, this⟩

theorem lastOf_spaced (n : Nat) (t : UInt64) (h : t.toNat + n * d.toNat < 2 ^ 64) (len : UInt32) :
    (lastOf ⟨t, len⟩ (spaced d g n t)).now.toNat = t.toNat + n * d.toNat := by
  induction n generalizing t len with
  | zero => simp [spaced, lastOf]
  | succ n ih =>
    have hn := toNat_next h
    have hlt : (t + d).toNat + n * d.toNat < 2 ^ 64 := by rw [hn]; rw [Nat.add_mul] at h; omega
    rw [spaced, lastOf_cons, ih (t + d) hlt g, hn, Nat.add_mul]
    omega

theorem length_spaced (n : Nat) (t : UInt64) : (calls r t (spaced d g n t)).length = n := by
  induction n generalizing t with
  | zero => rfl
  | succ n ih => simp [spaced, calls, ih]

theorem calls_spaced (n : Nat) (t : UInt64) :
    ∀ c ∈ calls r t (spaced d g n t), c = ⟨credit r.rateBps 0 d, g.toNat⟩ := by
  induction n generalizing t with
  | zero => simp [spaced, calls]
  | succ n ih =>
    intro c hc
    rcases List.mem_cons.mp hc with rfl | hc
    · have : t + d - t = d - 0 := by rw [UInt64.add_comm, UInt64.add_sub_cancel, UInt64.sub_zero]
      simp [credit, this]
    · exact ih _ c hc

/-- A packet of the whole capacity finds a new bucket full and leaves it empty. -/
theorem first_accepted {m : BoundedMap κ RateBucket cap} (hroom : Room m key)
    (hnew : m.lookup key = none) {p : Packet} (hlen : p.len.toNat = capacity r) :
    (rateLimitCheck p.now (limitOf r p) key m).1 = .accept ∧
      (rateLimitCheck p.now (limitOf r p) key m).2.lookup key = some ⟨p.now, 0⟩ := by
  obtain ⟨hv, hb, -⟩ := rateLimitCheck_room p.now (limitOf r p) hroom
  have hf : found p.now (limitOf r p) key m = ⟨p.now, maxBucket r.rateBps r.timeScale⟩ := by
    simp [found, hnew, limitOf]
  rw [hf] at hv hb
  generalize hfull : RateBucket.mk p.now (maxBucket r.rateBps r.timeScale) = full at hv hb
  have hmax : full.tokens.toNat = capacity r := by rw [← hfull]; exact toNat_limit r p
  have hlev : (refilled p.now (limitOf r p) full).toNat = capacity r := by
    rw [toNat_refilled _ _ (hmax.trans (toNat_limit r p).symm).le, hmax, toNat_limit]
    exact Nat.min_eq_left (Nat.le_add_right _ _)
  obtain ⟨hts, ha, htok⟩ := charge_spec p.now (limitOf r p) full
  have hacc : (charge p.now (limitOf r p) full).1 = .accept := ha.mpr (by rw [hlev]; exact hlen.le)
  have h0 : (charge p.now (limitOf r p) full).2.tokens = 0 := by
    apply UInt64.toNat_inj.mp
    rw [htok, if_pos hacc, hlev]
    exact Nat.sub_eq_zero_of_le hlen.ge
  exact ⟨hv.trans hacc, hb.trans (congrArg some (RateBucket.ext hts h0))⟩

/-- A full bucket and `n` packets that are each refilled in time exceed the promise. -/
theorem spaced_breaks [Inhabited κ] (hcap : 0 < cap) (n : Nat) (hg : g.toNat ≤ capacity r)
    (hcredit : g.toNat ≤ credit r.rateBps 0 d) (htime : n * d.toNat ≤ r.timeScale.toNat * 1000000000)
    (hsum : 9 * (r.rateBps.toNat * r.timeScale.toNat) < 8 * (capacity r + n * g.toNat)) :
    ¬ WithinScale κ cap r := by
  intro h
  have hT := r.timeScale.toNat_lt
  have hlt : (0 : UInt64).toNat + n * d.toNat < 2 ^ 64 := by rw [UInt64.toNat_zero]; omega
  have hc32 : capacity r < 2 ^ 32 := by unfold capacity; omega
  let p : Packet := ⟨0, UInt32.ofNat (capacity r)⟩
  have hp : p.len.toNat = capacity r := UInt32.toNat_ofNat_of_lt' hc32
  have hroom : Room (BoundedMap.empty : BoundedMap κ RateBucket cap) default :=
    .inr (by simpa [BoundedMap.empty, BoundedMap.keys] using hcap)
  obtain ⟨hv, hb⟩ := first_accepted (r := r) hroom (BoundedMap.lookup_empty _) hp
  have hrest := accepted_eq_taken (r := r) (spaced d g n 0) hb (by simp)
  rw [TokenBucket.taken_spaced hg _ (fun c hc => by rw [calls_spaced n 0 c hc]; exact ⟨rfl, hcredit⟩),
    length_spaced] at hrest
  have hwin := h .empty default hroom _ (clocked_spaced n 0 hlt p.len) [] p (spaced d g n 0) []
    (List.append_nil _).symm (by
      rw [lastOf_spaced n 0 hlt, UInt64.toNat_zero, Nat.zero_add]
      exact (Nat.sub_le _ _).trans htime)
  simp only [after, accepted, hv, if_true] at hwin
  rw [hrest, hp] at hwin
  omega

/-- The credit of a new bucket's first `d` nanoseconds. -/
theorem credit_zero (h : r.rateBps.toNat * d.toNat < 2 ^ 64) :
    credit r.rateBps 0 d = r.rateBps.toNat * d.toNat / 1000000000 := by
  rw [credit, UInt64.sub_zero, Nat.mul_comm, Nat.mod_eq_of_lt h]

/-- Four packets of the capacity, a quarter of time_scale apart. -/
theorem breaks_by_fifths [Inhabited κ] (hcap : 0 < cap) (h : r.rateBps.toNat * r.timeScale.toNat < 2 ^ 32)
    (hb : 9 * (r.rateBps.toNat * r.timeScale.toNat) < 40 * (r.rateBps.toNat * r.timeScale.toNat / 4)) :
    ¬ WithinScale κ cap r := by
  have hT := r.timeScale.toNat_lt
  have hc := capacity_eq h
  have hg : (UInt32.ofNat (capacity r)).toNat = capacity r :=
    UInt32.toNat_ofNat_of_lt' (by rw [hc]; show _ < 2 ^ 32; omega)
  have ht : (UInt64.ofNat (r.timeScale.toNat * 250000000)).toNat = r.timeScale.toNat * 250000000 :=
    UInt64.toNat_ofNat_of_lt' (by show _ < 2 ^ 64; omega)
  refine spaced_breaks (d := .ofNat (r.timeScale.toNat * 250000000))
    (g := .ofNat (capacity r)) hcap 4 hg.le ?_ ?_ ?_
  · rw [hg, credit_zero (by rw [ht, ← Nat.mul_assoc]; omega), ht, ← Nat.mul_assoc, hc]
    omega
  · rw [ht]; omega
  · rw [hg, hc]; omega

/-- What packets of one byte make of the rules whose bucket is too small for that. -/
theorem breaks_by_bytes : ∀ R < 28, ∀ T < 28,
    4 ≤ R * T ∧ R * T < 28 ∧ (R, T) ∉ tiny ∧ 40 * (R * T / 4) ≤ 9 * (R * T) →
    9 * (R * T) < 8 * (R * T / 4 + T * 1000000000 / ((1000000000 + R - 1) / R)) := by
  decide +kernel

theorem breaks_of_small [Inhabited κ] (hcap : 0 < cap) (h4 : 4 ≤ r.rateBps.toNat * r.timeScale.toNat)
    (h28 : r.rateBps.toNat * r.timeScale.toNat < 28) (hn : (r.rateBps.toNat, r.timeScale.toNat) ∉ tiny)
    (hb : 40 * (r.rateBps.toNat * r.timeScale.toNat / 4) ≤ 9 * (r.rateBps.toNat * r.timeScale.toNat)) :
    ¬ WithinScale κ cap r := by
  have hR0 : 0 < r.rateBps.toNat := Nat.pos_of_mul_pos_right (Nat.lt_of_lt_of_le (by decide) h4)
  have hT0 : 0 < r.timeScale.toNat := Nat.pos_of_mul_pos_left (Nat.lt_of_lt_of_le (by decide) h4)
  have hR : r.rateBps.toNat < 28 := Nat.lt_of_le_of_lt (Nat.le_mul_of_pos_right _ hT0) h28
  have hT : r.timeScale.toNat < 28 := Nat.lt_of_le_of_lt (Nat.le_mul_of_pos_left _ hR0) h28
  have hsum := breaks_by_bytes _ hR _ hT ⟨h4, h28, hn, hb⟩
  have hc := capacity_eq (r := r) (by omega)
  -- the shortest time that refills one byte
  obtain ⟨t, ht⟩ : ∃ t, t = (1000000000 + r.rateBps.toNat - 1) / r.rateBps.toNat := ⟨_, rfl⟩
  have hlo : 1000000000 ≤ r.rateBps.toNat * t := by
    have := Nat.lt_mul_div_succ (1000000000 + r.rateBps.toNat - 1) hR0
    rw [← ht, Nat.mul_add, Nat.mul_one] at this
    omega
  have hhi : r.rateBps.toNat * t ≤ 1000000000 + r.rateBps.toNat - 1 := by
    rw [ht]; exact Nat.mul_div_le _ _
  have htle : t ≤ r.rateBps.toNat * t := Nat.le_mul_of_pos_left _ hR0
  have ht64 : (UInt64.ofNat t).toNat = t := UInt64.toNat_ofNat_of_lt' (by show _ < 2 ^ 64; omega)
  rw [← ht] at hsum
  refine spaced_breaks (d := .ofNat t) (g := 1) hcap (r.timeScale.toNat * 1000000000 / t) ?_ ?_ ?_ ?_
  · rw [hc]; show 1 ≤ _; omega
  · rw [credit_zero (by rw [ht64]; omega), ht64]
    exact (Nat.le_div_iff_mul_le (by decide)).mpr (by show 1 * _ ≤ _; omega)
  · rw [ht64]; exact Nat.div_mul_le_self _ _
  · rw [hc]; show _ < 8 * (_ + _ * 1); omega

/-! ## The promise, exactly -/

/-- Where `rate_bps * time_scale` fits its type, a rule keeps the documented limit exactly
    when its bucket has no capacity or it is one of `tiny`. -/
theorem within_scale_iff [Inhabited κ] (hcap : 0 < cap) (r : Rule)
    (h : r.rateBps.toNat * r.timeScale.toNat < 2 ^ 32) :
    WithinScale κ cap r ↔
      r.rateBps.toNat * r.timeScale.toNat < 4 ∨ (r.rateBps.toNat, r.timeScale.toNat) ∈ tiny := by
  refine ⟨?_, fun hr => hr.elim within_of_empty within_of_tiny⟩
  intro hw
  by_contra hn
  obtain ⟨h4, hn⟩ := not_or.mp hn
  by_cases hb : 9 * (r.rateBps.toNat * r.timeScale.toNat) < 40 * (r.rateBps.toNat * r.timeScale.toNat / 4)
  · exact breaks_by_fifths hcap h hb hw
  · exact breaks_of_small hcap (by omega) (by omega) hn (by omega) hw

/-- The modules' map of 1024 buckets and a rule of 11 bytes/s over 1 s. -/
theorem within_scale_eleven : WithinScale UInt64 1024 ⟨11, 1⟩ :=
  (within_scale_iff (by decide) ⟨11, 1⟩ (by decide)).mpr (.inr (by decide))

/-- 1 MiB/s over 1 s: the full bucket of 256 KiB, then 256 KiB every quarter of a second. -/
theorem a_full_bucket_breaks_the_limit : ¬ WithinScale UInt64 1024 ⟨1048576, 1⟩ := by
  intro h
  have := h .empty 0 (.inr (by decide)) (⟨0, 262144⟩ :: spaced 250000000 262144 4 0)
    (by unfold Clocked; decide) [] ⟨0, 262144⟩ (spaced 250000000 262144 4 0) [] rfl (by decide)
  revert this
  decide +kernel

end Ksight.Wirefisher

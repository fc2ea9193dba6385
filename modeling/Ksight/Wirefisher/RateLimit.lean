/-
  Ksight.Wirefisher.RateLimit — the token bucket of the four limiters
  (src/net/wirefisher/include/common.h: `struct rate_bucket`, `struct rate_limit`,
  `rate_limit_check`).

  The fields and the arithmetic have the widths of the code: `rate_bps * time_scale` is a
  32-bit product, the refill `delta_ns * rate_bps` a 64-bit one. `buckets` is the map the
  rule's module keeps its buckets in; a key it has no bucket for and no room for is let
  through unlimited.

  `charge` is the part after the lookup. `rateLimitCheck_room` reduces a check to it;
  `charge_spec` and `toNat_refilled` reduce it to `Ksight.Lib.TokenBucket`: the credit of
  a call is `credit`, the floor of the wrapped product.
-/

import Mathlib.Data.UInt
import Ksight.Lib.BoundedMap
import Ksight.Lib.TokenBucket

namespace Ksight.Wirefisher

open Ksight.Lib

def nsecPerSec : UInt64 := 1000000000

inductive Verdict where
  | accept
  | drop
  deriving DecidableEq

@[ext]
structure RateBucket where
  tsNs : UInt64
  tokens : UInt64
  deriving DecidableEq

/-- The `rate_limit` of one packet; its `bucket_key` and `buckets` are arguments of their
    own. -/
structure RateLimit where
  rateBps : UInt32
  timeScale : UInt32
  packetLen : UInt32
  deriving DecidableEq

def maxBucket (rateBps timeScale : UInt32) : UInt64 := ((rateBps * timeScale) >>> 2).toUInt64

/-- The refill, the cap and the charge, on the bucket found. -/
def charge (now : UInt64) (rate : RateLimit) (b : RateBucket) : Verdict × RateBucket :=
  let max := maxBucket rate.rateBps rate.timeScale
  let deltaNs := now - b.tsNs
  let tokens := b.tokens + (deltaNs * rate.rateBps.toUInt64) / nsecPerSec
  let tokens := if tokens > max then max else tokens
  if tokens < rate.packetLen.toUInt64 then (.drop, ⟨now, tokens⟩)
  else (.accept, ⟨now, tokens - rate.packetLen.toUInt64⟩)

variable {κ : Type} [DecidableEq κ] {cap : Nat}

def rateLimitCheck (now : UInt64) (rate : RateLimit) (key : κ) (buckets : BoundedMap κ RateBucket cap) :
    Verdict × BoundedMap κ RateBucket cap :=
  let buckets :=
    match buckets.lookup key with
    | some _ => buckets
    | none => (buckets.update key ⟨now, maxBucket rate.rateBps rate.timeScale⟩).getD buckets
  match buckets.lookup key with
  | none => (.accept, buckets)
  | some b => let r := charge now rate b; (r.1, buckets.modify key fun _ => r.2)

/-! ## One check -/

/-- The map holds a bucket for `key` or can take one more. -/
def Room (m : BoundedMap κ RateBucket cap) (key : κ) : Prop := key ∈ m.keys ∨ m.keys.card < cap

/-- The bucket a check finds: the stored one, or the full one it creates. -/
def found (now : UInt64) (rate : RateLimit) (key : κ) (m : BoundedMap κ RateBucket cap) : RateBucket :=
  (m.lookup key).getD ⟨now, maxBucket rate.rateBps rate.timeScale⟩

/-- With room a check is the charge of the bucket found, and touches no other bucket. -/
theorem rateLimitCheck_room (now : UInt64) (rate : RateLimit) {key : κ} {m : BoundedMap κ RateBucket cap}
    (h : Room m key) :
    (rateLimitCheck now rate key m).1 = (charge now rate (found now rate key m)).1 ∧
      (rateLimitCheck now rate key m).2.lookup key = some (charge now rate (found now rate key m)).2 ∧
      ∀ k, k ≠ key → (rateLimitCheck now rate key m).2.lookup k = m.lookup k := by
  unfold rateLimitCheck found
  rcases hl : m.lookup key with _ | b
  · obtain ⟨m', hm', hk⟩ := BoundedMap.update_room h ⟨now, maxBucket rate.rateBps rate.timeScale⟩
    simp only [hm', Option.getD_some, hk key, if_true, BoundedMap.lookup_modify_self, Option.map_some,
      Option.getD_none,
      true_and]
    intro k hne
    rw [BoundedMap.lookup_modify_ne _ _ hne, hk, if_neg hne]
  · simp only [hl, BoundedMap.lookup_modify_self, Option.map_some, Option.getD_some, true_and]
    exact fun k hne => BoundedMap.lookup_modify_ne _ _ hne

/-- Without room a check accepts and changes nothing. -/
theorem rateLimitCheck_full (now : UInt64) (rate : RateLimit) {key : κ} {m : BoundedMap κ RateBucket cap}
    (h : ¬ Room m key) :
    rateLimitCheck now rate key m = (.accept, m) := by
  obtain ⟨hk, hfull⟩ := not_or.mp h
  have hl : m.lookup key = none := by
    rcases hl : m.lookup key with _ | b
    · rfl
    · exact absurd (BoundedMap.mem_keys.mpr ⟨b, hl⟩) hk
  have hu : m.update key ⟨now, maxBucket rate.rateBps rate.timeScale⟩ = none :=
    BoundedMap.update_eq_none.mpr ⟨hk, le_antisymm m.room (not_lt.mp hfull)⟩
  simp [rateLimitCheck, hl, hu]

/-- A check touches no bucket but its own. -/
theorem rateLimitCheck_other (now : UInt64) (rate : RateLimit) {key k : κ} (m : BoundedMap κ RateBucket cap)
    (h : k ≠ key) :
    (rateLimitCheck now rate key m).2.lookup k = m.lookup k := by
  by_cases hroom : Room m key
  · exact (rateLimitCheck_room now rate hroom).2.2 k h
  · rw [rateLimitCheck_full now rate hroom]

theorem keys_rateLimitCheck (now : UInt64) (rate : RateLimit) (key : κ) (m : BoundedMap κ RateBucket cap) :
    (rateLimitCheck now rate key m).2.keys ⊆ insert key m.keys := by
  intro k hk
  by_cases e : k = key
  · exact Finset.mem_insert.mpr (.inl e)
  · obtain ⟨b, hb⟩ := BoundedMap.mem_keys.mp hk
    rw [rateLimitCheck_other now rate m e] at hb
    exact Finset.mem_insert_of_mem (BoundedMap.mem_keys.mpr ⟨b, hb⟩)

/-- A map whose keys are among few enough has room for each of them. -/
theorem room_of_subset {s : Finset κ} {m : BoundedMap κ RateBucket cap} {key : κ} (hs : s.card ≤ cap)
    (hm : m.keys ⊆ s) (hk : key ∈ s) :
    Room m key := by
  by_cases e : key ∈ m.keys
  · exact .inl e
  · exact .inr ((Finset.card_lt_card ⟨hm, fun h => e (h hk)⟩).trans_le hs)

theorem room_check (now : UInt64) (rate : RateLimit) {key : κ} {m : BoundedMap κ RateBucket cap}
    (h : Room m key) :
    Room (rateLimitCheck now rate key m).2 key :=
  .inl (BoundedMap.mem_keys.mpr ⟨_, (rateLimitCheck_room now rate h).2.1⟩)

/-! ## The charge as a token bucket -/

theorem toNat_maxBucket (r t : UInt32) : (maxBucket r t).toNat = r.toNat * t.toNat % 2 ^ 32 / 4 := by
  simp [maxBucket, Nat.shiftRight_eq_div_pow]

theorem maxBucket_lt (r t : UInt32) : (maxBucket r t).toNat < 2 ^ 30 := by
  rw [toNat_maxBucket]; omega

/-- What a bucket last touched at `ts` is credited at `now`. -/
def credit (r : UInt32) (ts now : UInt64) : Nat := (now - ts).toNat * r.toNat % 2 ^ 64 / 1000000000

/-- What passes from `ts` to `now` at the rate `r`, in tokens of 10^-9. -/
def product (r : UInt32) (ts now : UInt64) : Nat := (now.toNat - ts.toNat) * r.toNat

theorem credit_eq (r : UInt32) {ts now : UInt64} (h : ts ≤ now) :
    credit r ts now = product r ts now % 2 ^ 64 / 1000000000 := by
  rw [credit, product, UInt64.toNat_sub_of_le _ _ h]

theorem credit_lt (r : UInt32) (ts now : UInt64) : credit r ts now < 2 ^ 35 := by
  unfold credit; omega

theorem credit_le (r : UInt32) {ts now : UInt64} (h : ts ≤ now) :
    credit r ts now ≤ r.toNat * (now.toNat - ts.toNat) / 1000000000 := by
  unfold credit
  rw [UInt64.toNat_sub_of_le _ _ h, Nat.mul_comm]
  exact Nat.div_le_div_right (Nat.mod_le _ _)

/-- The tokens after refill and cap. -/
def refilled (now : UInt64) (rate : RateLimit) (b : RateBucket) : UInt64 :=
  let tokens := b.tokens + ((now - b.tsNs) * rate.rateBps.toUInt64) / nsecPerSec
  if tokens > maxBucket rate.rateBps rate.timeScale then maxBucket rate.rateBps rate.timeScale else tokens

theorem charge_eq (now : UInt64) (rate : RateLimit) (b : RateBucket) :
    charge now rate b =
      if refilled now rate b < rate.packetLen.toUInt64 then (.drop, ⟨now, refilled now rate b⟩)
      else (.accept, ⟨now, refilled now rate b - rate.packetLen.toUInt64⟩) := rfl

theorem refilled_le (now : UInt64) (rate : RateLimit) (b : RateBucket) :
    (refilled now rate b).toNat ≤ (maxBucket rate.rateBps rate.timeScale).toNat := by
  unfold refilled
  simp only
  split
  · exact Nat.le_refl _
  · rename_i h
    exact UInt64.le_iff_toNat_le.mp (UInt64.not_lt.mp h)

/-- The refill of any bucket: also the sum may wrap. -/
theorem toNat_refilled_mod (now : UInt64) (rate : RateLimit) (b : RateBucket) :
    (refilled now rate b).toNat =
      min (maxBucket rate.rateBps rate.timeScale).toNat
        ((b.tokens.toNat + credit rate.rateBps b.tsNs now) % 2 ^ 64) := by
  have hc : (((now - b.tsNs) * rate.rateBps.toUInt64) / nsecPerSec).toNat =
      credit rate.rateBps b.tsNs now := by
    simp [credit, nsecPerSec, UInt64.toNat_div, UInt64.toNat_mul]
  have hs : (b.tokens + ((now - b.tsNs) * rate.rateBps.toUInt64) / nsecPerSec).toNat =
      (b.tokens.toNat + credit rate.rateBps b.tsNs now) % 2 ^ 64 := by
    rw [UInt64.toNat_add, hc]
  unfold refilled
  simp only
  split
  · rename_i h
    have := UInt64.lt_iff_toNat_lt.mp h
    omega
  · rename_i h
    have := UInt64.le_iff_toNat_le.mp (UInt64.not_lt.mp h)
    omega

/-- A bucket within its capacity is refilled without overflow. -/
theorem toNat_refilled (now : UInt64) (rate : RateLimit) {b : RateBucket}
    (h : b.tokens.toNat ≤ (maxBucket rate.rateBps rate.timeScale).toNat) :
    (refilled now rate b).toNat =
      TokenBucket.level (maxBucket rate.rateBps rate.timeScale).toNat b.tokens.toNat
      (credit rate.rateBps b.tsNs now) := by
  have hm := maxBucket_lt rate.rateBps rate.timeScale
  have hc := credit_lt rate.rateBps b.tsNs now
  rw [toNat_refilled_mod, TokenBucket.level, Nat.mod_eq_of_lt (by omega)]

/-- After a charge the bucket's clock is the call's and its tokens and what was accepted
    come out of the refilled bucket. -/
theorem charge_spec (now : UInt64) (rate : RateLimit) (b : RateBucket) :
    (charge now rate b).2.tsNs = now ∧
      ((charge now rate b).1 = .accept ↔ rate.packetLen.toNat ≤ (refilled now rate b).toNat) ∧
      (charge now rate b).2.tokens.toNat = (refilled now rate b).toNat -
        if (charge now rate b).1 = .accept then rate.packetLen.toNat else 0 := by
  rw [charge_eq]
  split
  · rename_i h
    have := UInt64.lt_iff_toNat_lt.mp h
    simp only [UInt32.toNat_toUInt64] at this
    refine ⟨rfl, ?_, by simp⟩
    simp only [reduceCtorEq, false_iff]; omega
  · rename_i h
    have h' := UInt64.not_lt.mp h
    have := UInt64.le_iff_toNat_le.mp h'
    simp only [UInt32.toNat_toUInt64] at this
    exact ⟨rfl, by simp [this], by rw [UInt64.toNat_sub_of_le _ _ h']; simp⟩

end Ksight.Wirefisher

/-
  Ksight.Wirefisher.Refill — what a bucket gains between two checks
  (src/net/wirefisher/include/common.h: `rate_limit_check`).

  A check credits the time since the last one, floored to whole tokens and computed modulo
  2^64, and notes its own time.

  (1) Waiting (`WaitingHelps`): the later a check, the more tokens it finds, and after the
      time in which the rate fills the bucket it finds it full. `waitingHelps_iff`: this
      holds up to a time if and only if the product of time and rate still fits 64 bits
      then, or the bucket is full then for all that (`Counts`). At 1 Gbit/s the product
      wraps after two and a half minutes (`a_long_wait_empties`).
  (2) Polling (`Unmoved`): a check whose packet is dropped changes the result of no later
      check. `unmoved_iff`: it changes none if and only if the two intervals it makes of
      one lose no token to the flooring, or the bucket is full by the next check
      (`Lossless`). A bucket polled often enough gains nothing (`polling_starves`).
-/

import Ksight.Lib.Outputs
import Ksight.Wirefisher.Conformance

namespace Ksight.Wirefisher.Refill

open Ksight.Lib

variable {κ : Type} [DecidableEq κ] {cap : Nat}

/-- The tokens a check at `t` finds in the bucket, before it charges. -/
def tokensAt (r : Rule) (b : RateBucket) (t : UInt64) : UInt64 := refilled t (limitOf r ⟨t, 0⟩) b

theorem toNat_tokensAt (r : Rule) (b : RateBucket) (t : UInt64) :
    (tokensAt r b t).toNat =
      min (capacity r) ((b.tokens.toNat + credit r.rateBps b.tsNs t) % 2 ^ 64) := by
  rw [tokensAt, toNat_refilled_mod, toNat_limit]
  rfl

theorem capacity_lt (r : Rule) : capacity r < 2 ^ 30 := by
  unfold capacity
  omega

/-- A check of a stored bucket charges what it finds in it. -/
theorem check_stored {r : Rule} {key : κ} {m : BoundedMap κ RateBucket cap} {b : RateBucket}
    (h : m.lookup key = some b) (p : Packet) :
    (rateLimitCheck p.now (limitOf r p) key m).1 = (charge p.now (limitOf r p) b).1 ∧
      (rateLimitCheck p.now (limitOf r p) key m).2.lookup key = some (charge p.now (limitOf r p) b).2 := by
  have hf : found p.now (limitOf r p) key m = b := by simp [found, h]
  obtain ⟨hv, hb, -⟩ := rateLimitCheck_room p.now (limitOf r p) (m := m)
    (.inl (BoundedMap.mem_keys.mpr ⟨b, h⟩))
  rw [hf] at hv hb
  exact ⟨hv, hb⟩

theorem accepted_iff {r : Rule} {key : κ} {m : BoundedMap κ RateBucket cap} {b : RateBucket}
    (h : m.lookup key = some b) (p : Packet) :
    (rateLimitCheck p.now (limitOf r p) key m).1 = .accept ↔ p.len.toNat ≤ (tokensAt r b p.now).toNat := by
  rw [(check_stored h p).1]
  exact (charge_spec p.now (limitOf r p) b).2.1

/-! ## Waiting -/

/-- The law, for a bucket `b` of `key` and the checks up to `t2`. -/
structure WaitingHelps (r : Rule) (key : κ) (m : BoundedMap κ RateBucket cap) (b : RateBucket) (t2 : UInt64) :
    Prop where
  tokens : ∀ t1, b.tsNs ≤ t1 → t1 ≤ t2 → tokensAt r b t1 ≤ tokensAt r b t2
  accepted : ∀ t1 len, b.tsNs ≤ t1 → t1 ≤ t2 → (rateLimitCheck t1 (limitOf r ⟨t1, len⟩) key m).1 = .accept →
    (rateLimitCheck t2 (limitOf r ⟨t2, len⟩) key m).1 = .accept
  full : 0 < r.rateBps.toNat → capacity r * 1000000000 ≤ product r.rateBps b.tsNs t2 →
    (tokensAt r b t2).toNat = capacity r

/-- The condition: the product fits at `t2`, in a bucket that holds no more than it should,
    or the bucket is full at `t2` even so. -/
def Counts (r : Rule) (b : RateBucket) (t2 : UInt64) : Prop :=
  b.tokens.toNat ≤ capacity r ∧ product r.rateBps b.tsNs t2 < 2 ^ 64 ∨
    capacity r ≤ (b.tokens.toNat + product r.rateBps b.tsNs t2 % 2 ^ 64 / 1000000000) % 2 ^ 64

variable {r : Rule} {key : κ} {m : BoundedMap κ RateBucket cap} {b : RateBucket} {t2 : UInt64}

/-- Up to the first overflow the credit grows with time. -/
theorem credit_mono {r : UInt32} {ts t1 t2 : UInt64} (h1 : ts ≤ t1) (h2 : t1 ≤ t2)
    (hp : product r ts t2 < 2 ^ 64) : credit r ts t1 ≤ credit r ts t2 := by
  have hle : product r ts t1 ≤ product r ts t2 :=
    Nat.mul_le_mul_right _ (Nat.sub_le_sub_right (UInt64.le_iff_toNat_le.mp h2) _)
  rw [credit_eq _ h1, credit_eq _ (UInt64.le_trans h1 h2), Nat.mod_eq_of_lt hp, Nat.mod_eq_of_lt (by omega)]
  exact Nat.div_le_div_right hle

/-- Before an overflow there is a time at which the credit fills any bucket. -/
theorem exists_full {r : Rule} {ts t2 : UInt64} (h : ts ≤ t2) (hp : 2 ^ 64 ≤ product r.rateBps ts t2) :
    ∃ t1, ts ≤ t1 ∧ t1 ≤ t2 ∧ capacity r ≤ credit r.rateBps ts t1 := by
  have hr := r.rateBps.toNat_lt
  have hle := UInt64.le_iff_toNat_le.mp h
  have ht2 := t2.toNat_lt
  have hcap := capacity_lt r
  have hpos : 0 < r.rateBps.toNat := Nat.pos_of_ne_zero fun e => by
    rw [product, e, Nat.mul_zero] at hp
    omega
  -- the last time whose product fits
  obtain ⟨d, hd⟩ : ∃ d, d = (2 ^ 64 - 1) / r.rateBps.toNat := ⟨_, rfl⟩
  have hfits : d * r.rateBps.toNat ≤ 2 ^ 64 - 1 := by
    rw [hd]
    exact Nat.div_mul_le_self _ _
  have hmost : 2 ^ 64 - 1 < d * r.rateBps.toNat + r.rateBps.toNat := by
    rw [hd]
    exact Nat.lt_div_mul_add hpos
  have hdt : d < t2.toNat - ts.toNat := by
    by_contra hno
    have := Nat.mul_le_mul_right r.rateBps.toNat (not_lt.mp hno)
    rw [product] at hp
    omega
  have ht1 : (UInt64.ofNat (ts.toNat + d)).toNat = ts.toNat + d :=
    UInt64.toNat_ofNat_of_lt' (by show _ < 2 ^ 64; omega)
  have hts : ts ≤ UInt64.ofNat (ts.toNat + d) := UInt64.le_iff_toNat_le.mpr (by omega)
  refine ⟨.ofNat (ts.toNat + d), hts, UInt64.le_iff_toNat_le.mpr (by omega), ?_⟩
  rw [credit_eq _ hts, product, ht1, Nat.add_sub_cancel_left]
  omega

theorem waitingHelps_iff (hb : m.lookup key = some b) (ht : b.tsNs ≤ t2) :
    WaitingHelps r key m b t2 ↔ Counts r b t2 := by
  have hcap := capacity_lt r
  have h2 := toNat_tokensAt r b t2
  rw [credit_eq _ ht] at h2
  constructor
  · intro h
    by_contra hno
    obtain ⟨hfit, hfull⟩ := not_or.mp hno
    -- at the time noted the bucket has no more than at `t2`, so it is within capacity
    have h0 := UInt64.le_iff_toNat_le.mp (h.tokens b.tsNs UInt64.le_rfl ht)
    rw [toNat_tokensAt r b b.tsNs] at h0
    have hzero : credit r.rateBps b.tsNs b.tsNs = 0 := by simp [credit]
    have htok := b.tokens.toNat_lt
    obtain ⟨t1, hts, hle, hc⟩ := exists_full (r := r) ht (not_lt.mp fun hp => hfit ⟨by omega, hp⟩)
    have h1 := UInt64.le_iff_toNat_le.mp (h.tokens t1 hts hle)
    have := credit_lt r.rateBps b.tsNs t1
    rw [toNat_tokensAt r b t1] at h1
    omega
  · intro h
    have htokens : ∀ t1, b.tsNs ≤ t1 → t1 ≤ t2 → tokensAt r b t1 ≤ tokensAt r b t2 := by
      intro t1 hts hle
      rw [UInt64.le_iff_toNat_le, toNat_tokensAt]
      rcases h with ⟨hcapd, hfit⟩ | hfull
      · have hmono := credit_mono hts hle hfit
        have := credit_lt r.rateBps b.tsNs t2
        rw [credit_eq _ ht] at hmono this
        omega
      · omega
    refine ⟨htokens, fun t1 len hts hle hacc => ?_, fun _ hlong => ?_⟩
    · have hacc := (accepted_iff hb ⟨t1, len⟩).mp hacc
      exact (accepted_iff hb ⟨t2, len⟩).mpr (hacc.trans (UInt64.le_iff_toNat_le.mp (htokens t1 hts hle)))
    · rcases h with ⟨hcapd, hfit⟩ | hfull
      · rw [Nat.mod_eq_of_lt hfit] at h2
        have : capacity r ≤ product r.rateBps b.tsNs t2 / 1000000000 :=
          (Nat.le_div_iff_mul_le (by decide : 0 < 1000000000)).mpr hlong
        omega
      · omega

/-- A map that holds the bucket `b`. -/
def holding (b : RateBucket) : BoundedMap UInt64 RateBucket 1024 := (BoundedMap.empty.update 0 b).getD .empty

theorem lookup_holding (b : RateBucket) : (holding b).lookup 0 = some b := by
  have hroom : (BoundedMap.empty : BoundedMap UInt64 RateBucket 1024).HasRoom 0 := .inr (by decide)
  rw [holding, BoundedMap.lookup_getD_update_room hroom, if_pos rfl]

/-- 125 MB/s, with a bucket of 31.25 MB. -/
def gigabit : Rule := ⟨125000000, 1⟩

/-- Two minutes after it was emptied the bucket is full. -/
theorem waiting_two_minutes : WaitingHelps gigabit 0 (holding ⟨0, 0⟩) ⟨0, 0⟩ 120000000000 :=
  (waitingHelps_iff (lookup_holding _) (by decide)).mpr (by unfold Counts; decide)

/-- 147.57 s after it was emptied it holds nothing. -/
theorem a_long_wait_empties : ¬ WaitingHelps gigabit 0 (holding ⟨0, 0⟩) ⟨0, 0⟩ 147573952590 := by
  intro h
  have := h.tokens 147000000000 (by decide) (by decide)
  revert this
  decide

/-! ## Polling -/

def checkStep (r : Rule) (key : κ) (p : Packet) (m : BoundedMap κ RateBucket cap) :
    (Verdict × Option UInt64) × BoundedMap κ RateBucket cap :=
  let c := rateLimitCheck p.now (limitOf r p) key m
  ((c.1, (c.2.lookup key).map RateBucket.tokens), c.2)

/-- The verdict of each check, and the tokens it leaves. -/
def results (r : Rule) (key : κ) (ps : List Packet) (m : BoundedMap κ RateBucket cap) :
    List (Verdict × Option UInt64) := outputs (checkStep r key) ps m

/-- The packet `q` is dropped, and comes between the last check of the bucket and the
    packets `later`, the first of which has no overflow without it. -/
structure Inserted (r : Rule) (key : κ) (m : BoundedMap κ RateBucket cap) (q : Packet) (later : List Packet) :
    Prop where
  dropped : (rateLimitCheck q.now (limitOf r q) key m).1 = .drop
  after : ∀ b ∈ m.lookup key, b.tsNs ≤ q.now
  before : ∀ p ∈ later.head?, q.now ≤ p.now
  fits : ∀ b ∈ m.lookup key, ∀ p ∈ later.head?, product r.rateBps b.tsNs p.now < 2 ^ 64

/-- The law: with the check of `q` before them, the later checks have the same results. -/
def Unmoved (r : Rule) (key : κ) (m : BoundedMap κ RateBucket cap) (q : Packet) (later : List Packet) : Prop :=
  results r key later (rateLimitCheck q.now (limitOf r q) key m).2 = results r key later m

/-- The condition, for the bucket `b`, the time `t` of the dropped packet and the time `p` of
    the next check: the remainders of the two intervals do not add up to a token, or the bucket is
    full at `p` either way. A sum that wraps, in a bucket above its capacity, wraps in both. -/
def Lossless (r : Rule) (b : RateBucket) (t p : UInt64) : Prop :=
  let first := product r.rateBps b.tsNs t
  let second := product r.rateBps t p
  let whole := product r.rateBps b.tsNs p / 1000000000
  (first % 1000000000 + second % 1000000000 < 1000000000 ∧
      (b.tokens.toNat + whole < 2 ^ 64 ∨ 2 ^ 64 ≤ b.tokens.toNat + first / 1000000000)) ∨
    (capacity r ≤ (b.tokens.toNat + first / 1000000000) % 2 ^ 64 + second / 1000000000 ∧
      capacity r ≤ (b.tokens.toNat + whole) % 2 ^ 64)

/-- The results depend on the bucket only. -/
theorem results_congr {m' : BoundedMap κ RateBucket cap} (h : m.lookup key = some b)
    (h' : m'.lookup key = some b) (ps : List Packet) : results r key ps m' = results r key ps m := by
  have hsame : List.Forall₂ (· = ·) ps ps := List.forall₂_refl ps
  refine (outputs_map (f := id) (S := fun m m' => ∃ b, m.lookup key = some b ∧ m'.lookup key = some b)
    ?_ hsame ⟨b, h, h'⟩).trans (List.map_id _)
  rintro p _ m m' rfl ⟨b, hb, hb'⟩
  obtain ⟨hv, hl⟩ := check_stored (r := r) hb p
  obtain ⟨hv', hl'⟩ := check_stored (r := r) hb' p
  refine ⟨?_, _, hl, hl'⟩
  simp only [checkStep, hv, hv', hl, hl', id]

/-- A check tells how many tokens it found. -/
theorem charge_inj {rate : RateLimit} {now : UInt64} {b b' : RateBucket}
    (hv : (charge now rate b).1 = (charge now rate b').1)
    (ht : (charge now rate b).2.tokens = (charge now rate b').2.tokens) :
    refilled now rate b = refilled now rate b' := by
  obtain ⟨-, ha, hk⟩ := charge_spec now rate b
  obtain ⟨-, ha', hk'⟩ := charge_spec now rate b'
  rw [ht, hk', ← hv] at hk
  rw [← hv] at ha'
  apply UInt64.toNat_inj.mp
  by_cases h : (charge now rate b).1 = .accept
  · have := ha.mp h
    have := ha'.mp h
    rw [if_pos h] at hk
    omega
  · rw [if_neg h] at hk
    omega

/-- The results from two buckets are the same if and only if the first check finds as much. -/
theorem results_eq_iff {m' : BoundedMap κ RateBucket cap} {b' : RateBucket} (h : m.lookup key = some b)
    (h' : m'.lookup key = some b') (p : Packet) (ps : List Packet) :
    results r key (p :: ps) m' = results r key (p :: ps) m ↔ tokensAt r b' p.now = tokensAt r b p.now := by
  obtain ⟨hv, hl⟩ := check_stored (r := r) h p
  obtain ⟨hv', hl'⟩ := check_stored (r := r) h' p
  constructor
  · intro he
    have hhead := (List.cons.injEq ..).mp he
    simp only [checkStep, hv, hv', hl, hl', Prod.mk.injEq, Option.map_some, Option.some.injEq] at hhead
    have hinj := charge_inj hhead.1.1 hhead.1.2
    exact hinj
  · intro he
    have hcharge : charge p.now (limitOf r p) b' = charge p.now (limitOf r p) b := by
      have he : refilled p.now (limitOf r p) b' = refilled p.now (limitOf r p) b := he
      rw [charge_eq, charge_eq, he]
    rw [hcharge] at hv' hl'
    have hrest := results_congr (r := r) hl hl' ps
    unfold results at hrest
    simp only [results, outputs, checkStep, hv, hv', hl, hl', hrest]

/-- What a dropped packet leaves: what it found, with its own time. -/
theorem dropped_bucket {q : Packet} (h : m.lookup key = some b)
    (hd : (rateLimitCheck q.now (limitOf r q) key m).1 = .drop) :
    (rateLimitCheck q.now (limitOf r q) key m).2.lookup key = some ⟨q.now, tokensAt r b q.now⟩ := by
  obtain ⟨hv, hl⟩ := check_stored (r := r) h q
  rw [hl]
  rw [hv, charge_eq] at hd
  rw [charge_eq]
  split at hd
  · rename_i hlt
    rw [if_pos hlt]
    rfl
  · cases hd

theorem lossless_iff {t p : UInt64} (h1 : b.tsNs ≤ t) (h2 : t ≤ p)
    (hfit : product r.rateBps b.tsNs p < 2 ^ 64) :
    tokensAt r ⟨t, tokensAt r b t⟩ p = tokensAt r b p ↔ Lossless r b t p := by
  have hsum : product r.rateBps b.tsNs p = product r.rateBps b.tsNs t + product r.rateBps t p := by
    have := UInt64.le_iff_toNat_le.mp h1
    have := UInt64.le_iff_toNat_le.mp h2
    rw [product, product, product, ← Nat.add_mul]
    congr 1
    omega
  have hcap := capacity_lt r
  have htok := b.tokens.toNat_lt
  rw [← UInt64.toNat_inj, toNat_tokensAt, toNat_tokensAt, toNat_tokensAt, credit_eq _ h1, credit_eq _ h2,
    credit_eq _ (UInt64.le_trans h1 h2), Nat.mod_eq_of_lt hfit]
  unfold Lossless
  dsimp only
  rw [hsum] at hfit ⊢
  generalize product r.rateBps b.tsNs t = first at hfit ⊢
  generalize product r.rateBps t p = second at hfit ⊢
  rw [Nat.mod_eq_of_lt (show first < 2 ^ 64 by omega), Nat.mod_eq_of_lt (show second < 2 ^ 64 by omega),
    Nat.add_div (by decide)]
  have hfirst : first / 1000000000 < 2 ^ 35 := by omega
  have hsecond : second / 1000000000 < 2 ^ 35 := by omega
  -- the remainders add up to a token or they do not
  rcases Nat.lt_or_ge (first % 1000000000 + second % 1000000000) 1000000000 with hno | hcarry
  · rw [if_neg (not_le.mpr hno)]
    simp only [hno, true_and, Nat.add_zero]
    clear hfit hsum hno
    generalize first / 1000000000 = x at hfirst ⊢
    generalize second / 1000000000 = z at hsecond ⊢
    omega
  · rw [if_pos hcarry]
    simp only [not_lt.mpr hcarry, false_and, false_or]
    clear hfit hsum hcarry
    generalize first / 1000000000 = x at hfirst ⊢
    generalize second / 1000000000 = z at hsecond ⊢
    omega

/-- A check that finds no bucket is one of the full bucket it makes. -/
theorem check_created (hl : m.lookup key = none) (h : Room m key) (p : Packet) :
    ∃ m', m'.lookup key = some ⟨p.now, maxBucket r.rateBps r.timeScale⟩ ∧
      rateLimitCheck p.now (limitOf r p) key m = rateLimitCheck p.now (limitOf r p) key m' := by
  obtain ⟨m', hm', hlook⟩ := BoundedMap.update_room h ⟨p.now, maxBucket r.rateBps r.timeScale⟩
  have hkey : m'.lookup key = some ⟨p.now, maxBucket r.rateBps r.timeScale⟩ := by rw [hlook, if_pos rfl]
  refine ⟨m', hkey, ?_⟩
  have hm' : m.update key ⟨p.now, maxBucket (limitOf r p).rateBps (limitOf r p).timeScale⟩ = some m' := hm'
  simp only [rateLimitCheck, hl, hm', Option.getD_some, hkey]

theorem tokensAt_full (r : Rule) (ts t : UInt64) :
    tokensAt r ⟨ts, maxBucket r.rateBps r.timeScale⟩ t = maxBucket r.rateBps r.timeScale := by
  have hcap := capacity_lt r
  have hc := credit_lt r.rateBps ts t
  have hm : (maxBucket r.rateBps r.timeScale).toNat = capacity r := toNat_maxBucket _ _
  rw [← UInt64.toNat_inj, toNat_tokensAt]
  dsimp only
  rw [hm, Nat.mod_eq_of_lt (by omega)]
  omega

/-- The results of the later checks are those without the dropped packet if and only if no
    token is lost to it. -/
theorem unmoved_iff {q : Packet} {later : List Packet} (h : Inserted r key m q later) :
    Unmoved r key m q later ↔ ∀ b ∈ m.lookup key, ∀ p ∈ later.head?, Lossless r b q.now p.now := by
  rcases later with _ | ⟨p, ps⟩
  · simp [Unmoved, results, outputs]
  have hqp := h.before p rfl
  rcases hl : m.lookup key with _ | b
  · -- the dropped packet has made the full bucket that the next check would make
    refine iff_of_true ?_ (by simp)
    have hroom : Room m key := by
      by_contra hno
      have := h.dropped
      rw [rateLimitCheck_full _ _ hno] at this
      cases this
    obtain ⟨mq, hmq, hq⟩ := check_created (r := r) hl hroom q
    obtain ⟨mp, hmp, hp⟩ := check_created (r := r) hl hroom p
    have hd := h.dropped
    rw [hq] at hd
    have hafter := dropped_bucket hmq hd
    rw [tokensAt_full] at hafter
    have hsame : results r key (p :: ps) m = results r key (p :: ps) mp := by
      simp only [results, outputs, checkStep, hp]
    rw [Unmoved, hq, hsame, results_eq_iff hmp hafter, tokensAt_full, tokensAt_full]
  · have hq := dropped_bucket hl h.dropped
    simp only [Option.mem_some_iff, List.head?_cons, forall_eq']
    exact (results_eq_iff hl hq p ps).trans (lossless_iff (h.after b hl) hqp (h.fits b hl p rfl))

/-- 100 B/s over 4 s: a bucket of 100, which gains nothing in 9 ms. -/
def slow : Rule := ⟨100, 4⟩

/-- After 20 ms the bucket has gained 2, whether it was polled after 10 ms or not. -/
theorem a_poll_at_a_whole_token :
    Unmoved slow 0 (holding ⟨0, 0⟩) ⟨10000000, 60⟩ [⟨20000000, 2⟩] := by
  refine (unmoved_iff ⟨?_, ?_, ?_, ?_⟩).mpr ?_
  · rw [(check_stored (lookup_holding _) _).1]
    decide
  all_goals simp only [lookup_holding, Option.mem_some_iff, List.head?_cons, forall_eq']
  · decide
  · decide
  · decide
  · unfold Lossless
    decide

theorem polled_early : Inserted slow 0 (holding ⟨0, 0⟩) ⟨9000000, 60⟩ [⟨20000000, 2⟩] := by
  refine ⟨?_, ?_, ?_, ?_⟩
  · rw [(check_stored (lookup_holding _) _).1]
    decide
  all_goals simp only [lookup_holding, Option.mem_some_iff, List.head?_cons, forall_eq']
  all_goals decide

/-- Polled after 9 ms it has gained 1, and the packet of 2 is dropped. -/
theorem polling_starves :
    Inserted slow 0 (holding ⟨0, 0⟩) ⟨9000000, 60⟩ [⟨20000000, 2⟩] ∧
      ¬ Unmoved slow 0 (holding ⟨0, 0⟩) ⟨9000000, 60⟩ [⟨20000000, 2⟩] := by
  refine ⟨polled_early, fun h => ?_⟩
  have hq := dropped_bucket (lookup_holding _) polled_early.dropped
  have := (results_eq_iff (lookup_holding _) hq _ _).mp h
  revert this
  decide

end Ksight.Wirefisher.Refill

/-
  Ksight.Wirefisher.Conformance — what a run of `rate_limit_check` lets through
  (src/net/wirefisher/include/common.h: `rate_limit_check`; the limits promised in
  doc/中文/设计文档.md and doc/中文/使用手册.md).

  A run is a list of packets of one bucket key under one rule, with the clock reading of
  each check. `conforms`: the bucket never holds more than its capacity, a quarter of
  rate * time_scale, and a window of checks accepts at most the capacity plus the rate
  times the window's length.

  `calls` reads the checks of one bucket as the calls of `Ksight.Lib.TokenBucket`, and
  `worth_mul_le` turns a bound on what one interval is worth into one on a window.
-/

import Ksight.Wirefisher.RateLimit

namespace Ksight.Wirefisher

open Ksight.Lib

structure Rule where
  rateBps : UInt32
  timeScale : UInt32
  deriving DecidableEq

structure Packet where
  now : UInt64
  len : UInt32

def limitOf (r : Rule) (p : Packet) : RateLimit := ⟨r.rateBps, r.timeScale, p.len⟩

/-- The capacity of the rule's buckets. -/
def capacity (r : Rule) : Nat := r.rateBps.toNat * r.timeScale.toNat % 2 ^ 32 / 4

variable {κ : Type} [DecidableEq κ] {cap : Nat} (r : Rule) (key : κ)

/-- The map after the checks of `ps`. -/
def after : List Packet → BoundedMap κ RateBucket cap → BoundedMap κ RateBucket cap
  | [], m => m
  | p :: ps, m => after ps (rateLimitCheck p.now (limitOf r p) key m).2

/-- The bytes of the packets of `ps` that are accepted. -/
def accepted : List Packet → BoundedMap κ RateBucket cap → Nat
  | [], _ => 0
  | p :: ps, m =>
    let c := rateLimitCheck p.now (limitOf r p) key m
    (if c.1 = .accept then p.len.toNat else 0) + accepted ps c.2

/-- The clock readings do not decrease. -/
def Clocked (ps : List Packet) : Prop := ps.Pairwise fun p q => p.now ≤ q.now

/-- The last packet of a window that starts with `p`. -/
def lastOf (p : Packet) (win : List Packet) : Packet := (p :: win).getLast (List.cons_ne_nil _ _)

structure Conforms (m : BoundedMap κ RateBucket cap) (ps : List Packet) : Prop where
  capped : ∀ pre p post, ps = pre ++ p :: post →
    ∃ b, (after r key (pre ++ [p]) m).lookup key = some b ∧ b.tokens.toNat ≤ capacity r
  window : ∀ pre p win post, ps = pre ++ (p :: win) ++ post →
    accepted r key (p :: win) (after r key pre m) ≤
      capacity r + r.rateBps.toNat * ((lastOf p win).now.toNat - p.now.toNat) / 1000000000

/-! ## A run on its bucket -/

variable {r key}

theorem room_after (ps : List Packet) {m : BoundedMap κ RateBucket cap} (h : Room m key) :
    Room (after r key ps m) key := by
  induction ps generalizing m with
  | nil => exact h
  | cons p ps ih => exact ih (room_check _ _ h)

theorem after_append (ps qs : List Packet) (m : BoundedMap κ RateBucket cap) :
    after r key (ps ++ qs) m = after r key qs (after r key ps m) := by
  induction ps generalizing m with
  | nil => rfl
  | cons p ps ih => exact ih _

variable (r) in
/-- The calls a run makes of a bucket last touched at `ts`. -/
def calls : UInt64 → List Packet → List TokenBucket.Call
  | _, [] => []
  | ts, p :: ps => ⟨credit r.rateBps ts p.now, p.len.toNat⟩ :: calls p.now ps

theorem toNat_limit (r : Rule) (p : Packet) :
    (maxBucket (limitOf r p).rateBps (limitOf r p).timeScale).toNat = capacity r := toNat_maxBucket _ _

/-- The first check of a run leaves a bucket within capacity, touched at its time, and
    takes what it accepts out of that capacity. -/
theorem check_bucket (p : Packet) {m : BoundedMap κ RateBucket cap} (h : Room m key) :
    ∃ b, (rateLimitCheck p.now (limitOf r p) key m).2.lookup key = some b ∧ b.tsNs = p.now ∧
      (if (rateLimitCheck p.now (limitOf r p) key m).1 = .accept then p.len.toNat else 0) +
        b.tokens.toNat ≤ capacity r := by
  obtain ⟨hv, hb, -⟩ := rateLimitCheck_room p.now (limitOf r p) h
  set b := found p.now (limitOf r p) key m
  obtain ⟨hts, ha, htok⟩ := charge_spec p.now (limitOf r p) b
  have hle : (refilled p.now (limitOf r p) b).toNat ≤ capacity r :=
    (refilled_le _ _ _).trans_eq (toNat_limit r p)
  refine ⟨_, hb, hts, ?_⟩
  rw [hv, htok]
  by_cases hacc : (charge p.now (limitOf r p) b).1 = .accept
  · have hlen : p.len.toNat ≤ (refilled p.now (limitOf r p) b).toNat := ha.mp hacc
    rw [if_pos hacc, if_pos hacc]
    show p.len.toNat + (_ - p.len.toNat) ≤ _
    omega
  · rw [if_neg hacc, if_neg hacc]
    omega

/-- A run on a bucket within capacity takes what the token bucket takes. -/
theorem accepted_eq_taken (ps : List Packet) {m : BoundedMap κ RateBucket cap} {b : RateBucket}
    (hb : m.lookup key = some b) (hcap : b.tokens.toNat ≤ capacity r) :
    accepted r key ps m = TokenBucket.taken (capacity r) b.tokens.toNat (calls r b.tsNs ps) := by
  induction ps generalizing m b with
  | nil => rfl
  | cons p ps ih =>
    have hroom : Room m key := .inl (BoundedMap.mem_keys.mpr ⟨b, hb⟩)
    obtain ⟨hv, hb', -⟩ := rateLimitCheck_room p.now (limitOf r p) hroom
    have hf : found p.now (limitOf r p) key m = b := by simp [found, hb]
    rw [hf] at hv hb'
    obtain ⟨hts, ha, htok⟩ := charge_spec p.now (limitOf r p) b
    have hlev : (refilled p.now (limitOf r p) b).toNat =
        TokenBucket.level (capacity r) b.tokens.toNat (credit r.rateBps b.tsNs p.now) := by
      rw [toNat_refilled _ _ (hcap.trans_eq (toNat_limit r p).symm), toNat_limit]; rfl
    -- both machines accept the packet, or both refuse it
    have hserve : (charge p.now (limitOf r p) b).1 = .accept ↔
        TokenBucket.serve (capacity r) b.tokens.toNat
          ⟨credit r.rateBps b.tsNs p.now, p.len.toNat⟩ = true := by
      rw [ha, hlev]; simp [TokenBucket.serve, limitOf]
    have hafter : (charge p.now (limitOf r p) b).2.tokens.toNat =
        TokenBucket.tokensAfter (capacity r) b.tokens.toNat
          ⟨credit r.rateBps b.tsNs p.now, p.len.toNat⟩ := by
      rw [htok, hlev]
      unfold TokenBucket.tokensAfter
      by_cases hs : (charge p.now (limitOf r p) b).1 = .accept
      · rw [if_pos hs, if_pos (hserve.mp hs)]; rfl
      · rw [if_neg hs, if_neg (fun h => hs (hserve.mpr h)), Nat.sub_zero]
    have ih := ih hb' (hafter ▸ TokenBucket.tokensAfter_le ..)
    simp only [accepted, calls, TokenBucket.taken]
    rw [ih, hts, hafter, hv]
    congr 1
    by_cases hs : (charge p.now (limitOf r p) b).1 = .accept
    · rw [if_pos hs, if_pos (hserve.mp hs)]
    · rw [if_neg hs, if_neg (fun h => hs (hserve.mpr h))]

theorem accepted_window (p : Packet) (win : List Packet) {m : BoundedMap κ RateBucket cap} (h : Room m key) :
    accepted r key (p :: win) m ≤ capacity r + TokenBucket.worth (capacity r) (calls r p.now win) := by
  obtain ⟨b, hb, hts, hfirst⟩ := check_bucket (r := r) p h
  have hrest := accepted_eq_taken (r := r) win hb (by omega)
  have := TokenBucket.taken_add_left (capacity r) b.tokens.toNat (calls r b.tsNs win)
  simp only [accepted]
  rw [hts] at hrest this
  omega

/-! ## Credits over a window -/

theorem lastOf_cons (p q : Packet) (win : List Packet) : lastOf p (q :: win) = lastOf q win := by
  simp [lastOf]

/-- Times between checks add up to the window; so does any bound on what one of them is
    worth. -/
theorem worth_mul_le {w d : Nat} (hw : ∀ ts now : UInt64, ts ≤ now →
      min (capacity r) (credit r.rateBps ts now) * w ≤ d * (now.toNat - ts.toNat))
    (p : Packet) (win : List Packet) (hc : Clocked (p :: win)) :
    TokenBucket.worth (capacity r) (calls r p.now win) * w ≤
      d * ((lastOf p win).now.toNat - p.now.toNat) := by
  induction win generalizing p with
  | nil => simp [TokenBucket.worth, calls]
  | cons q win ih =>
    have hpq : p.now ≤ q.now := (List.pairwise_cons.mp hc).1 q List.mem_cons_self
    have hc' : Clocked (q :: win) := (List.pairwise_cons.mp hc).2
    have hlast : q.now.toNat ≤ (lastOf q win).now.toNat := by
      have hmem : lastOf q win ∈ q :: win := List.getLast_mem _
      rcases List.mem_cons.mp hmem with e | hm
      · rw [e]
      · exact UInt64.le_iff_toNat_le.mp ((List.pairwise_cons.mp hc').1 _ hm)
    have hle := UInt64.le_iff_toNat_le.mp hpq
    have h1 := hw p.now q.now hpq
    have h2 := ih q hc'
    have hsplit : (lastOf q win).now.toNat - p.now.toNat =
        (q.now.toNat - p.now.toNat) + ((lastOf q win).now.toNat - q.now.toNat) := by omega
    simp only [TokenBucket.worth, calls, List.map_cons, List.sum_cons] at h2 ⊢
    rw [lastOf_cons, hsplit, Nat.add_mul, Nat.mul_add]
    exact Nat.add_le_add h1 h2

/-- The credits of a window come to at most the rate times its length. -/
theorem worth_le_rate (p : Packet) (win : List Packet) (hc : Clocked (p :: win)) :
    TokenBucket.worth (capacity r) (calls r p.now win) ≤
      r.rateBps.toNat * ((lastOf p win).now.toNat - p.now.toNat) / 1000000000 := by
  refine (Nat.le_div_iff_mul_le (by decide)).mpr (worth_mul_le ?_ p win hc)
  intro ts now h
  have h1 := credit_le r.rateBps h
  have h2 := Nat.min_le_right (capacity r) (credit r.rateBps ts now)
  calc min (capacity r) (credit r.rateBps ts now) * 1000000000
      ≤ (r.rateBps.toNat * (now.toNat - ts.toNat) / 1000000000) * 1000000000 :=
        Nat.mul_le_mul_right _ (h2.trans h1)
    _ ≤ r.rateBps.toNat * (now.toNat - ts.toNat) := Nat.div_mul_le_self _ _

/-- Every run of checks of one key with non-decreasing clock readings conforms, whatever
    bucket the key has at first. -/
theorem conforms (r : Rule) (key : κ) (m : BoundedMap κ RateBucket cap) (hroom : Room m key)
    (ps : List Packet) (hclock : Clocked ps) : Conforms r key m ps := by
  constructor
  · intro pre p post _
    obtain ⟨b, hb, -, hle⟩ := check_bucket (r := r) p (room_after (r := r) pre hroom)
    exact ⟨b, by rw [after_append]; exact hb, by omega⟩
  · intro pre p win post e
    subst e
    have hc : Clocked (p :: win) := by
      have := (List.pairwise_append.mp hclock).1
      exact (List.pairwise_append.mp this).2.1
    exact (accepted_window p win (room_after pre hroom)).trans
      (Nat.add_le_add_left (worth_le_rate p win hc) _)

/-- 8 bytes/s over 1 s: a bucket of 2, five packets of 2 half a second apart. -/
theorem conforms_eight :
    Conforms ⟨8, 1⟩ (0 : UInt64) (.empty : BoundedMap UInt64 RateBucket 1024)
      [⟨0, 2⟩, ⟨500000000, 2⟩, ⟨1000000000, 2⟩, ⟨1500000000, 2⟩, ⟨1500000000, 2⟩] :=
  conforms _ _ _ (.inr (by decide)) _ (by unfold Clocked; decide)

end Ksight.Wirefisher

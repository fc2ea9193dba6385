/-
  Ksight.Wirefisher.Uncharged — the packets the port limiter accepts without a charge
  (src/net/wirefisher/bpf/tc_port.bpf.h: `netfilter_handle`, `buckets`;
  include/common.h: `rate_limit_check`).

  The buckets map is never pruned and holds 1024 keys. A packet whose key has no bucket
  when the map is full (`MeetsFull`) finds none after the insertion either, and is let
  through. `charged_or_full`: every other packet of the rule that is accepted was charged
  to the bucket of its key. `charged_within`: so a key none of whose packets met the full
  map keeps to its capacity and refill in every window of time. `full_iff`: in a sequence
  a packet meets the full map exactly when there are more keys than the map can hold.

  The 1025th destination is one too many: its packets are not limited at all
  (`destination_1025_is_free`).
-/

import Ksight.Wirefisher.SharedBucket

namespace Ksight.Wirefisher.Port

open Ksight.Lib

variable (rules : BoundedMap UInt32 IpProPortRule maxRules) (rule : IpProPortRule)

/-- The handler has taken the packet's length out of the refilled bucket of its key. -/
def Charged (p : Arrival) (k : UInt64) (m m' : Maps) : Prop :=
  ∃ b, m'.buckets.lookup k = some b ∧ b.tsNs = p.readings.checkNow ∧
    b.tokens.toNat + p.ctx.skb.data.length =
      (refilled p.readings.checkNow (rateLimit rule p.ctx.skb)
        (found p.readings.checkNow (rateLimit rule p.ctx.skb) k m.buckets)).toNat

/-- The map is full and has no bucket of the packet's key. -/
def MeetsFull (p : Arrival) (m : Maps) : Prop :=
  ∃ t, ruleMatch rule p.ctx = some t ∧ bucketKey rule t ∉ m.buckets.keys ∧
    m.buckets.keys.card = maxBuckets

/-- The bytes of the packets of a key that are accepted. -/
def acceptedOf (k : UInt64) : List Arrival → Maps → Nat
  | [], _ => 0
  | p :: ps, m =>
    let c := netfilterHandle rules p.ctx p.readings m
    (if (ruleMatch rule p.ctx).map (bucketKey rule) = some k ∧ c.1 = .accept then
      p.ctx.skb.data.length else 0) + acceptedOf k ps c.2.2

/-- No packet of the key meets the full map. -/
def NeverFull (k : UInt64) : List Arrival → Maps → Prop
  | [], _ => True
  | p :: ps, m =>
    ((ruleMatch rule p.ctx).map (bucketKey rule) = some k → ¬ MeetsFull rule p m) ∧
      NeverFull k ps (netfilterHandle rules p.ctx p.readings m).2.2

/-- The checks of a key, as `Conformance` reads them. -/
def packetsOf (k : UInt64) (ps : List Arrival) : List Packet :=
  ps.filterMap fun p =>
    if (ruleMatch rule p.ctx).map (bucketKey rule) = some k then
      some ⟨p.readings.checkNow, p.ctx.skb.len⟩
    else none

def ClockedAt (ps : List Arrival) : Prop :=
  ps.Pairwise fun p q => p.readings.checkNow ≤ q.readings.checkNow

variable {rules rule}

/-! ## One packet -/

theorem room_iff_not_full {p : Arrival} {t : PacketTuple} (hm : ruleMatch rule p.ctx = some t) {m : Maps} :
    Room m.buckets (bucketKey rule t) ↔ ¬ MeetsFull rule p m := by
  have hle := m.buckets.room
  constructor
  · rintro hroom ⟨u, hu, hk, hcard⟩
    rw [hm] at hu
    cases hu
    rcases hroom with h | h
    · exact hk h
    · omega
  · intro h
    by_cases hk : bucketKey rule t ∈ m.buckets.keys
    · exact .inl hk
    · refine .inr (lt_of_le_of_ne hle fun hcard => h ⟨t, hm, hk, hcard⟩)

variable (hr : rules.lookup 0 = some rule)
include hr

/-- An accepted packet of the rule was charged, or met the full map and is not. -/
theorem charged_or_full {p : Arrival} {t : PacketTuple} (hm : ruleMatch rule p.ctx = some t) (m : Maps) :
    (¬ MeetsFull rule p m → (netfilterHandle rules p.ctx p.readings m).1 = .accept →
        Charged rule p (bucketKey rule t) m (netfilterHandle rules p.ctx p.readings m).2.2) ∧
      (MeetsFull rule p m → (netfilterHandle rules p.ctx p.readings m).1 = .accept ∧
        ¬ Charged rule p (bucketKey rule t) m (netfilterHandle rules p.ctx p.readings m).2.2) := by
  obtain ⟨hv, hb⟩ := verdict_of_some hr hm m
  constructor
  · intro hnot hacc
    have hroom := (room_iff_not_full hm).mpr hnot
    obtain ⟨hv', hl, -⟩ := rateLimitCheck_room p.readings.checkNow (rateLimit rule p.ctx.skb) hroom
    set b := found p.readings.checkNow (rateLimit rule p.ctx.skb) (bucketKey rule t) m.buckets
    obtain ⟨hts, hacc', htok⟩ := charge_spec p.readings.checkNow (rateLimit rule p.ctx.skb) b
    have hc : (charge p.readings.checkNow (rateLimit rule p.ctx.skb) b).1 = .accept := by
      rw [← hv', ← hv, hacc]
    have hlen : (rateLimit rule p.ctx.skb).packetLen.toNat = p.ctx.skb.data.length := SkBuff.toNat_len _
    have hle := hacc'.mp hc
    rw [if_pos hc] at htok
    refine ⟨_, hb ▸ hl, hts, ?_⟩
    show _ + _ = (refilled p.readings.checkNow (rateLimit rule p.ctx.skb) b).toNat
    omega
  · intro hfull
    have hno : ¬ Room m.buckets (bucketKey rule t) := fun h => (room_iff_not_full hm).mp h hfull
    rw [rateLimitCheck_full _ _ hno] at hv hb
    refine ⟨hv, ?_⟩
    rintro ⟨b, hl, -⟩
    rw [hb] at hl
    exact hno (.inl (BoundedMap.mem_keys.mpr ⟨b, hl⟩))

/-! ## The packets of one key -/

/-- What is accepted of a key is what a limiter of that key alone accepts. -/
theorem acceptedOf_eq {k : UInt64} (ps : List Arrival) {m : Maps} {m' : Buckets}
    (hl : m.buckets.lookup k = m'.lookup k) (hroom : Room m' k) (hn : NeverFull rules rule k ps m) :
    acceptedOf rules rule k ps m =
      accepted ⟨rule.rateBps.toUInt32, rule.timeScale⟩ k (packetsOf rule k ps) m' := by
  induction ps generalizing m m' with
  | nil => rfl
  | cons p ps ih =>
    obtain ⟨hfull, hn⟩ := hn
    by_cases e : (ruleMatch rule p.ctx).map (bucketKey rule) = some k
    · obtain ⟨t, ht, hk⟩ := Option.map_eq_some_iff.mp e
      have hroomM : Room m.buckets k := hk ▸ (room_iff_not_full ht).mpr (hfull e)
      have hfound : found p.readings.checkNow (rateLimit rule p.ctx.skb) k m.buckets =
          found p.readings.checkNow (rateLimit rule p.ctx.skb) k m' := by rw [found, found, hl]
      obtain ⟨hv, hb⟩ := verdict_of_some hr ht m
      rw [hk] at hv hb
      obtain ⟨hv1, hl1, -⟩ := rateLimitCheck_room p.readings.checkNow (rateLimit rule p.ctx.skb) hroomM
      obtain ⟨hv2, hl2, -⟩ := rateLimitCheck_room p.readings.checkNow (rateLimit rule p.ctx.skb) hroom
      have hsame : (netfilterHandle rules p.ctx p.readings m).1 =
          (rateLimitCheck p.readings.checkNow (rateLimit rule p.ctx.skb) k m').1 := by
        rw [hv, hv1, hv2, hfound]
      have hroom' := room_check p.readings.checkNow (rateLimit rule p.ctx.skb) hroom
      have hih := ih (by rw [hb, hl1, hl2, hfound]) hroom' hn
      have hpk : packetsOf rule k (p :: ps) =
          ⟨p.readings.checkNow, p.ctx.skb.len⟩ :: packetsOf rule k ps := List.filterMap_cons_some (if_pos e)
      rw [hpk]
      simp only [acceptedOf, accepted, e, true_and, hsame, hih, SkBuff.toNat_len]
      rfl
    · have hpk : packetsOf rule k (p :: ps) = packetsOf rule k ps := List.filterMap_cons_none (if_neg e)
      have hother : (netfilterHandle rules p.ctx p.readings m).2.2.buckets.lookup k = m.buckets.lookup k :=
        lookup_other hr (fun t ht hk => e (by rw [ht, Option.map_some, hk])) m
      rw [hpk, ← ih (hother.trans hl) hroom hn]
      simp [acceptedOf, e]

/-- A key none of whose packets meets the full map keeps to its capacity and the refill of
    the window, in every window of time. -/
theorem charged_within {k : UInt64} {win : List Arrival} {m : Maps} (hn : NeverFull rules rule k win m)
    (hc : ClockedAt win) {t0 t1 : UInt64}
    (ht : ∀ p ∈ win, t0 ≤ p.readings.checkNow ∧ p.readings.checkNow ≤ t1) :
    acceptedOf rules rule k win m ≤
      capacityOf rule + rule.rateBps.toUInt32.toNat * (t1.toNat - t0.toNat) / 1000000000 := by
  obtain ⟨m', hl, hroom⟩ : ∃ m' : Buckets, m.buckets.lookup k = m'.lookup k ∧ Room m' k := by
    by_cases hk : k ∈ m.buckets.keys
    · exact ⟨m.buckets, rfl, .inl hk⟩
    · refine ⟨.empty, ?_, .inr (by decide)⟩
      rcases h : m.buckets.lookup k with _ | b
      · rfl
      · exact absurd (BoundedMap.mem_keys.mpr ⟨b, h⟩) hk
  rw [acceptedOf_eq hr win hl hroom hn]
  have hmem : ∀ q ∈ packetsOf rule k win, t0 ≤ q.now ∧ q.now ≤ t1 := by
    intro q hq
    obtain ⟨p, hp, he⟩ := List.mem_filterMap.mp hq
    split at he
    · cases he; exact ht p hp
    · cases he
  have hclocked : Clocked (packetsOf rule k win) := by
    refine List.Pairwise.filterMap _ ?_ hc
    intro p q hpq p' hp' q' hq'
    split at hp'
    · split at hq'
      · cases hp'; cases hq'; exact hpq
      · cases hq'
    · cases hp'
  rcases hps : packetsOf rule k win with _ | ⟨q, qs⟩
  · simp [accepted]
  · rw [hps] at hmem hclocked
    have h0 := UInt64.le_iff_toNat_le.mp (hmem q List.mem_cons_self).1
    have h1 := UInt64.le_iff_toNat_le.mp (hmem (lastOf q qs) (List.getLast_mem _)).2
    refine (accepted_window q qs hroom).trans (Nat.add_le_add_left ?_ _)
    refine (worth_le_rate q qs hclocked).trans (Nat.div_le_div_right (Nat.mul_le_mul_left _ ?_))
    omega

/-! ## When the map is full -/

/-- A sequence no packet of which meets the full map leaves a bucket under every key. -/
theorem keys_of_never_full {ps : List Arrival} {m : Maps}
    (h : ∀ pre p post, ps = pre ++ p :: post → ¬ MeetsFull rule p (mapsAfter rules pre m)) :
    m.buckets.keys ∪ keysOf rule ps ⊆ (mapsAfter rules ps m).buckets.keys := by
  induction ps generalizing m with
  | nil => simp [keysOf, mapsAfter]
  | cons p ps ih =>
    have hstep := ih (m := (netfilterHandle rules p.ctx p.readings m).2.2)
      fun pre q post e => h (p :: pre) q post (by rw [e]; rfl)
    have hp := h [] p ps rfl
    intro j hj
    apply hstep
    rcases he : ruleMatch rule p.ctx with _ | t
    · rw [(verdict_of_none hr he m).2]
      simpa [keysOf, he] using hj
    · have hroom := (room_iff_not_full he).mpr hp
      obtain ⟨-, hl, hother⟩ := rateLimitCheck_room p.readings.checkNow (rateLimit rule p.ctx.skb) hroom
      rw [(verdict_of_some hr he m).2]
      by_cases ej : j = bucketKey rule t
      · subst ej
        exact Finset.mem_union_left _ (BoundedMap.mem_keys.mpr ⟨_, hl⟩)
      · rcases Finset.mem_union.mp hj with hj | hj
        · obtain ⟨b, hb⟩ := BoundedMap.mem_keys.mp hj
          exact Finset.mem_union_left _ (BoundedMap.mem_keys.mpr ⟨b, (hother j ej).trans hb⟩)
        · refine Finset.mem_union_right _ ?_
          simpa [keysOf, he, ej] using hj

omit hr in
theorem neverFull_of_none {ps : List Arrival} {m : Maps}
    (h : ∀ pre p post, ps = pre ++ p :: post → ¬ MeetsFull rule p (mapsAfter rules pre m)) (k : UInt64) :
    NeverFull rules rule k ps m := by
  induction ps generalizing m with
  | nil => trivial
  | cons p ps ih =>
    exact ⟨fun _ => h [] p ps rfl, ih fun pre q post e => h (p :: pre) q post (by rw [e]; rfl)⟩

/-- A packet meets the full map exactly where there are more keys than it can hold. -/
theorem full_iff (ps : List Arrival) (m : Maps) :
    (∃ pre p post, ps = pre ++ p :: post ∧ MeetsFull rule p (mapsAfter rules pre m)) ↔
      maxBuckets < (m.buckets.keys ∪ keysOf rule ps).card := by
  constructor
  · rintro ⟨pre, p, post, rfl, t, ht, hk, hcard⟩
    by_contra hle
    have hroom : RoomFor rule m (pre ++ p :: post) := not_lt.mp hle
    rcases room_after_part hr hroom (fun q hq => List.mem_append_left _ hq)
      (List.mem_append_right _ List.mem_cons_self) ht with h | h
    · exact hk h
    · omega
  · intro hlt
    by_contra hno
    push Not at hno
    have hsub := keys_of_never_full hr (m := m) hno
    have := (Finset.card_le_card hsub).trans (mapsAfter rules ps m).buckets.room
    omega

/-- An accepted packet of the rule was charged unless it met the full map; a key whose
    packets did not keeps to its capacity and refill; and the full map is met exactly in
    the sequences with more keys than it can hold. -/
theorem charged_unless_full (m : Maps) (ps : List Arrival) :
    (∀ pre p post t, ps = pre ++ p :: post → ruleMatch rule p.ctx = some t →
        verdictAfter rules m pre p = .accept →
        (Charged rule p (bucketKey rule t) (mapsAfter rules pre m) (mapsAfter rules (pre ++ [p]) m) ↔
          ¬ MeetsFull rule p (mapsAfter rules pre m))) ∧
      (∀ k pre win post, ps = pre ++ win ++ post → ClockedAt win →
        NeverFull rules rule k win (mapsAfter rules pre m) →
        ∀ t0 t1, (∀ p ∈ win, t0 ≤ p.readings.checkNow ∧ p.readings.checkNow ≤ t1) →
          acceptedOf rules rule k win (mapsAfter rules pre m) ≤
            capacityOf rule + rule.rateBps.toUInt32.toNat * (t1.toNat - t0.toNat) / 1000000000) ∧
      ((∃ pre p post, ps = pre ++ p :: post ∧ MeetsFull rule p (mapsAfter rules pre m)) ↔
        maxBuckets < (m.buckets.keys ∪ keysOf rule ps).card) := by
  refine ⟨?_, ?_, full_iff hr ps m⟩
  · intro pre p post t _ ht hacc
    obtain ⟨hpay, hfree⟩ := charged_or_full hr ht (mapsAfter rules pre m)
    rw [mapsAfter_append]
    exact ⟨fun hc hf => (hfree hf).2 hc, fun hf => hpay hf hacc⟩
  · intro k pre win post _ hc hn t0 t1 ht
    exact charged_within hr hn hc ht

omit hr

/-- 28 bytes for the UDP packets of any address. -/
def ruleOfUdp : IpProPortRule :=
  { ruleOfAddress with targetProtocol := ipprotoUdp, ipEnable := 0, protocolEnable := 1 }

/-- Packets to two addresses: the third one finds the tokens of its key used up, and the last one
    those of a quarter of a second. -/
def toTwoAddresses : List Arrival :=
  [arrival ruleOfUdp ⟨1, 80, ipprotoUdp⟩ 28 0, arrival ruleOfUdp ⟨2, 80, ipprotoUdp⟩ 28 0,
    arrival ruleOfUdp ⟨1, 80, ipprotoUdp⟩ 28 100, arrival ruleOfUdp ⟨1, 80, ipprotoUdp⟩ 28 250000100]

/-- Whatever is accepted of them is charged; of the first key it is as much as it may be. -/
theorem two_keys_charged :
    (∀ pre p post t, toTwoAddresses = pre ++ p :: post → ruleMatch ruleOfUdp p.ctx = some t →
        verdictAfter (oneRule ruleOfUdp) emptyMaps pre p = .accept →
        Charged ruleOfUdp p (bucketKey ruleOfUdp t) (mapsAfter (oneRule ruleOfUdp) pre emptyMaps)
          (mapsAfter (oneRule ruleOfUdp) (pre ++ [p]) emptyMaps)) ∧
      acceptedOf (oneRule ruleOfUdp) ruleOfUdp (bucketKey ruleOfUdp (tupleOf ⟨1, 80, ipprotoUdp⟩)) toTwoAddresses
          emptyMaps ≤
        capacityOf ruleOfUdp + ruleOfUdp.rateBps.toUInt32.toNat * 250000100 / 1000000000 ∧
      acceptedOf (oneRule ruleOfUdp) ruleOfUdp (bucketKey ruleOfUdp (tupleOf ⟨1, 80, ipprotoUdp⟩)) toTwoAddresses
          emptyMaps = 56 := by
  have hr : (oneRule ruleOfUdp).lookup 0 = some ruleOfUdp := rfl
  obtain ⟨hcharged, hwindow, hfull⟩ := charged_unless_full hr emptyMaps toTwoAddresses
  have hkeys : ¬ maxBuckets < (emptyMaps.buckets.keys ∪ keysOf ruleOfUdp toTwoAddresses).card := by decide +kernel
  have hnone : ∀ pre p post, toTwoAddresses = pre ++ p :: post →
      ¬ MeetsFull ruleOfUdp p (mapsAfter (oneRule ruleOfUdp) pre emptyMaps) :=
    fun pre p post e hf => hkeys (hfull.mp ⟨pre, p, post, e, hf⟩)
  have hclocked : ClockedAt toTwoAddresses := by
    simp [ClockedAt, toTwoAddresses, arrival]
  have hbounds : ∀ p ∈ toTwoAddresses, 0 ≤ p.readings.checkNow ∧ p.readings.checkNow ≤ 250000100 := by
    simp [toTwoAddresses, arrival]
  refine ⟨fun pre p post t hps ht hacc => (hcharged pre p post t hps ht hacc).mpr (hnone pre p post hps), ?_,
    by decide +kernel⟩
  exact hwindow _ [] toTwoAddresses [] (by simp) hclocked (neverFull_of_none hnone _) 0 250000100 hbounds

/-- A packet of 1000 bytes to each of 1025 addresses. -/
def destinations : List Arrival :=
  (List.range 1025).map fun i => arrival ruleOfUdp ⟨.ofNat i, 80, ipprotoUdp⟩ 1000 0

theorem match_destination (i : Nat) :
    ruleMatch ruleOfUdp (arrival ruleOfUdp ⟨.ofNat i, 80, ipprotoUdp⟩ 1000 0).ctx =
      some (tupleOf ⟨.ofNat i, 80, ipprotoUdp⟩) :=
  match_arrival (.inl ⟨rfl, by decide⟩) ⟨fun h => absurd h (by decide), fun h => absurd h (by decide),
    fun _ => rfl⟩ 0

theorem card_keysOf_destinations : (keysOf ruleOfUdp destinations).card = 1025 := by
  have hkeys : ∀ is : List Nat,
      (is.map fun i => arrival ruleOfUdp ⟨.ofNat i, 80, ipprotoUdp⟩ 1000 0).filterMap
        (fun p => (ruleMatch ruleOfUdp p.ctx).map (bucketKey ruleOfUdp)) =
      is.map fun i => bucketKey ruleOfUdp (tupleOf ⟨.ofNat i, 80, ipprotoUdp⟩) := by
    intro is
    induction is with
    | nil => rfl
    | cons i is ih =>
      rw [List.map_cons, List.filterMap_cons_some (by rw [match_destination]; rfl), ih, List.map_cons]
  rw [keysOf, destinations, hkeys, List.toFinset_card_of_nodup, List.length_map, List.length_range]
  refine List.Nodup.map_on ?_ List.nodup_range
  intro i hi j hj h
  have hip := congrArg UInt32.toNat ((bucketKey_eq_iff (.inr (.inr (by decide)))).mp h).1
  have hi := List.mem_range.mp hi
  have hj := List.mem_range.mp hj
  simp only [tupleOf] at hip
  rwa [UInt32.toNat_ofNat_of_lt' (by show _ < 2 ^ 32; omega),
    UInt32.toNat_ofNat_of_lt' (by show _ < 2 ^ 32; omega)] at hip

/-- One of the packets is accepted without a charge, and is longer than the capacity. -/
theorem destination_1025_is_free :
    ∃ pre p post t, destinations = pre ++ p :: post ∧ ruleMatch ruleOfUdp p.ctx = some t ∧
      verdictAfter (oneRule ruleOfUdp) emptyMaps pre p = .accept ∧
      ¬ Charged ruleOfUdp p (bucketKey ruleOfUdp t) (mapsAfter (oneRule ruleOfUdp) pre emptyMaps)
        (mapsAfter (oneRule ruleOfUdp) (pre ++ [p]) emptyMaps) ∧
      capacityOf ruleOfUdp < p.ctx.skb.data.length := by
  have hr : (oneRule ruleOfUdp).lookup 0 = some ruleOfUdp := rfl
  obtain ⟨pre, p, post, hps, hfull⟩ := (full_iff hr destinations emptyMaps).mpr (by
    refine lt_of_lt_of_le ?_ (Finset.card_le_card Finset.subset_union_right)
    rw [card_keysOf_destinations]
    decide)
  obtain ⟨t, ht, -⟩ := id hfull
  obtain ⟨hacc, hno⟩ := (charged_or_full hr ht _).2 hfull
  refine ⟨pre, p, post, t, hps, ht, hacc, ?_, ?_⟩
  · rw [mapsAfter_append]
    exact hno
  · have hp : p ∈ destinations := hps ▸ List.mem_append_right _ List.mem_cons_self
    obtain ⟨i, -, rfl⟩ := List.mem_map.mp hp
    show _ < (packet _ _ _ _).data.length
    rw [length_packet _ _ (.inl ⟨rfl, by decide⟩)]
    decide

end Ksight.Wirefisher.Port

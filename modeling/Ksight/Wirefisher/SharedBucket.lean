/-
  Ksight.Wirefisher.SharedBucket — under every other rule two flows of the port limiter
  have one bucket (src/net/wirefisher/bpf/tc_port.bpf.h: `netfilter_handle`, `buckets`).

  A key holds the bitwise or of port and protocol, so UDP ports 80 and 81 have one bucket
  and each pays for the other (`port_81_pays_for_port_80`). For a rule that is not one of
  `Separates` there is always a sequence that shows it: packets of one flow empty the
  bucket of the other (`drained`), or, where the bucket can pay for none of them, their
  checks still change what it is refilled with (`polled`). So the rules of `Separates` are
  exactly those under which every sequence is isolated (`flows_isolated`).
-/

import Ksight.Wirefisher.Isolation

namespace Ksight.Wirefisher.Port

open Ksight.Lib

/-! ## A packet of a flow -/

def tupleOf (f : Flow) : PacketTuple := ⟨0, f.dstIp, 0, f.dstPort, f.protocol⟩

def packetOf (f : Flow) (len : UInt16) : SkBuff := packet f.dstIp f.dstPort f.protocol len

theorem parse_packet {f : Flow} {len : UInt16} (h : Carries f.protocol len) :
    parseSkBuff (packetOf f len) = some (tupleOf f) := by
  have h28 := le_of_carries h
  have hle : ∀ n : UInt32, n.toNat ≤ len.toNat → ¬ (packetOf f len).len < n := fun _ => packet_len_ge h
  have h20 : ¬ (packetOf f len).len ≤ 20 := packet_len_gt h (by show 20 < len.toNat; omega)
  have hip : ipHdr (packetOf f len) = some ⟨4, 5, f.protocol, 0, bswap32 f.dstIp⟩ := ipHdr_packet h
  have hsrc : bswap32 0 = 0 := by decide
  have hsport : bswap16 0 = 0 := by decide
  have hihl : (5 : UInt8).toUInt32 * 4 = 20 := rfl
  unfold parseSkBuff
  rw [if_neg (hle 28 h28), hip]
  dsimp only
  rw [if_neg (by decide), hihl, if_neg (not_or.mpr ⟨by decide, h20⟩), hsrc, bswap32_bswap32]
  by_cases hp : f.protocol = ipprotoUdp
  · rw [if_pos hp, if_neg (hle _ (by show 28 ≤ len.toNat; omega)), packetOf, udpHdr_packet h, Option.map_some,
      hsport, bswap16_bswap16]
    rfl
  · obtain ⟨htcp, h40⟩ := h.resolve_left (fun h => hp h.1)
    rw [if_neg hp, if_pos htcp, if_neg (hle _ (by show 40 ≤ len.toNat; omega)), packetOf, tcpHdr_packet h h40,
      Option.map_some, hsport, bswap16_bswap16]
    rfl

/-- A packet of the flow at the rule's hook, with one reading for every clock. -/
def arrival (rule : IpProPortRule) (f : Flow) (len : UInt16) (now : UInt64) : Arrival :=
  ⟨⟨hookOf rule, packetOf f len⟩, ⟨now, now, now, now, true⟩⟩

variable {rules : BoundedMap UInt32 IpProPortRule maxRules} {rule : IpProPortRule} {f g : Flow} {len : UInt16}

theorem match_arrival (h : Carries f.protocol len) (hp : Passes rule (tupleOf f)) (now : UInt64) :
    ruleMatch rule (arrival rule f len now).ctx = some (tupleOf f) :=
  ruleMatch_eq_some.mpr ⟨rfl, parse_packet h, hp⟩

theorem flow_arrival (h : Carries f.protocol len) (now : UInt64) : (arrival rule f len now).flow = some f := by
  simp [Arrival.flow, arrival, parse_packet h, tupleOf, PacketTuple.flow]

/-! ## The tokens a check finds -/

def rateOf (rule : IpProPortRule) : RateLimit := ⟨rule.rateBps.toUInt32, rule.timeScale, 0⟩

/-- A check of the key at `now` has `x` tokens to charge. -/
def Finds (rule : IpProPortRule) (m : Maps) (k : UInt64) (now : UInt64) (x : Nat) : Prop :=
  Room m.buckets k ∧ (found now (rateOf rule) k m.buckets).tokens.toNat ≤ capacityOf rule ∧
    TokenBucket.level (capacityOf rule) (found now (rateOf rule) k m.buckets).tokens.toNat
      (credit rule.rateBps.toUInt32 (found now (rateOf rule) k m.buckets).tsNs now) = x

def emptyMaps : Maps := ⟨.empty, .empty⟩

theorem credit_self (r : UInt32) (now : UInt64) : credit r now now = 0 := by simp [credit]

theorem finds_empty (rule : IpProPortRule) (k now : UInt64) :
    Finds rule emptyMaps k now (capacityOf rule) := by
  have hm : (maxBucket (rateOf rule).rateBps (rateOf rule).timeScale).toNat = capacityOf rule :=
    toNat_maxBucket _ _
  refine ⟨.inr (by decide), ?_, ?_⟩
  · simp [found, emptyMaps, hm]
  · simp [found, emptyMaps, hm, credit_self, TokenBucket.level]

theorem finds_le {m : Maps} {k now : UInt64} {x : Nat} (h : Finds rule m k now x) : x ≤ capacityOf rule := by
  obtain ⟨-, -, rfl⟩ := h
  unfold TokenBucket.level; omega

/-- A packet is accepted if the tokens found pay for it, and a later check finds what it
    left and the credit since. -/
theorem handle_finds (hr : rules.lookup 0 = some rule) (hc : Carries f.protocol len) (hp : Passes rule (tupleOf f))
    {m : Maps} {now : UInt64} {x : Nat} (h : Finds rule m (bucketKey rule (tupleOf f)) now x) :
    ((netfilterHandle rules (arrival rule f len now).ctx (arrival rule f len now).readings m).1 = .accept ↔
        len.toNat ≤ x) ∧
      ∀ later, Finds rule
        (netfilterHandle rules (arrival rule f len now).ctx (arrival rule f len now).readings m).2.2
        (bucketKey rule (tupleOf f)) later
        (TokenBucket.level (capacityOf rule) (if len.toNat ≤ x then x - len.toNat else x)
          (credit rule.rateBps.toUInt32 now later)) := by
  have hm := match_arrival hc hp now
  obtain ⟨hroom, hle, hx⟩ := h
  have hcap : (maxBucket (rateLimit rule (packetOf f len)).rateBps
      (rateLimit rule (packetOf f len)).timeScale).toNat = capacityOf rule := toNat_maxBucket _ _
  set b := found now (rateOf rule) (bucketKey rule (tupleOf f)) m.buckets with hb
  obtain ⟨hts, hacc, htok⟩ := charge_spec now (rateLimit rule (packetOf f len)) b
  have hlev : (refilled now (rateLimit rule (packetOf f len)) b).toNat = x := by
    rw [toNat_refilled _ _ (hle.trans_eq hcap.symm), hcap]
    exact hx
  have hpl : (rateLimit rule (packetOf f len)).packetLen.toNat = len.toNat :=
    (SkBuff.toNat_len _).trans (length_packet _ _ hc)
  rw [hlev, hpl] at hacc htok
  obtain ⟨hv, hl, -⟩ := rateLimitCheck_room now (rateLimit rule (packetOf f len)) hroom
  obtain ⟨hv', hb'⟩ := verdict_of_some hr hm m
  constructor
  · rw [hv']
    exact (iff_of_eq (congrArg (· = Verdict.accept) hv)).trans hacc
  · intro later
    have hafter : (netfilterHandle rules (arrival rule f len now).ctx (arrival rule f len now).readings
        m).2.2.buckets.lookup (bucketKey rule (tupleOf f)) =
          some (charge now (rateLimit rule (packetOf f len)) b).2 := by
      rw [hb']; exact hl
    have hleft : (charge now (rateLimit rule (packetOf f len)) b).2.tokens.toNat =
        if len.toNat ≤ x then x - len.toNat else x := by
      rw [htok]
      by_cases e : len.toNat ≤ x
      · rw [if_pos (hacc.mpr e), if_pos e]
      · rw [if_neg (fun h => e (hacc.mp h)), if_neg e, Nat.sub_zero]
    have hxc : x ≤ capacityOf rule := hx ▸ Nat.min_le_left _ _
    refine ⟨.inl (BoundedMap.mem_keys.mpr ⟨_, hafter⟩), ?_, ?_⟩
    · rw [found, hafter, Option.getD_some, hleft]
      split <;> omega
    · rw [found, hafter, Option.getD_some, hleft, hts]

/-! ## A flow that pays for another -/

/-- The sequence has a verdict that another flow changes. -/
def Broken (rules : BoundedMap UInt32 IpProPortRule maxRules) (rule : IpProPortRule) : Prop :=
  ∃ ps, RoomFor rule emptyMaps ps ∧ ¬ Isolated rules emptyMaps ps

theorem roomFor_of_key {k : UInt64} {ps : List Arrival}
    (h : ∀ p ∈ ps, ∀ t, ruleMatch rule p.ctx = some t → bucketKey rule t = k) :
    RoomFor rule emptyMaps ps := by
  have hsub : emptyMaps.buckets.keys ∪ keysOf rule ps ⊆ {k} := by
    intro j hj
    rcases Finset.mem_union.mp hj with hj | hj
    · obtain ⟨b, hb⟩ := BoundedMap.mem_keys.mp hj
      rw [emptyMaps, BoundedMap.lookup_empty] at hb
      cases hb
    · obtain ⟨p, hp, he⟩ := List.mem_filterMap.mp (List.mem_toFinset.mp hj)
      obtain ⟨t, ht, rfl⟩ := Option.map_eq_some_iff.mp he
      exact Finset.mem_singleton.mpr (h p hp t ht)
  exact (Finset.card_le_card hsub).trans ((Finset.card_singleton k).trans_le (by decide))

theorem finds_replicate (hr : rules.lookup 0 = some rule) (hc : Carries f.protocol len) (hp : Passes rule (tupleOf f))
    {now : UInt64} (n : Nat) {m : Maps} {x : Nat} (hx : n * len.toNat ≤ x)
    (h : Finds rule m (bucketKey rule (tupleOf f)) now x) :
    Finds rule (mapsAfter rules (List.replicate n (arrival rule f len now)) m)
      (bucketKey rule (tupleOf f)) now (x - n * len.toNat) := by
  induction n generalizing m x with
  | zero => simpa [mapsAfter] using h
  | succ n ih =>
    rw [Nat.succ_mul] at hx ⊢
    have hle : len.toNat ≤ x := by omega
    have hstep := (handle_finds hr hc hp h).2 now
    have hxc := finds_le h
    rw [credit_self, if_pos hle,
      show TokenBucket.level (capacityOf rule) (x - len.toNat) 0 = x - len.toNat from by
        unfold TokenBucket.level; omega] at hstep
    have := ih (by omega) hstep
    rw [show x - (n * len.toNat + len.toNat) = x - len.toNat - n * len.toNat from by omega]
    exact this

variable (len) in
/-- Packets of `f` leave too little for one of `g` that the full bucket would have paid
    for. -/
theorem drained (hr : rules.lookup 0 = some rule) (hf : Carries f.protocol len) (hg : Carries g.protocol len)
    (hpf : Passes rule (tupleOf f)) (hpg : Passes rule (tupleOf g)) (hne : f ≠ g)
    (hkey : bucketKey rule (tupleOf f) = bucketKey rule (tupleOf g)) (hlen : len.toNat ≤ capacityOf rule) :
    Broken rules rule := by
  have hpos : 0 < len.toNat := by rcases hf with hf | hf <;> omega
  let pre := List.replicate (capacityOf rule / len.toNat) (arrival rule f len 0)
  refine ⟨pre ++ [arrival rule g len 0], roomFor_of_key (k := bucketKey rule (tupleOf g)) ?_, ?_⟩
  · intro p hp t ht
    rcases List.mem_append.mp hp with hp | hp
    · rw [List.eq_of_mem_replicate hp, match_arrival hf hpf] at ht
      cases ht
      exact hkey
    · rw [List.mem_singleton.mp hp, match_arrival hg hpg] at ht
      cases ht
      rfl
  · intro hi
    have hv := hi pre (arrival rule g len 0) [] rfl
    have hfilter : pre.filter (fun q => q.flow = (arrival rule g len 0).flow) = [] := by
      refine List.filter_eq_nil_iff.mpr fun q hq => ?_
      rw [List.eq_of_mem_replicate hq, flow_arrival hf, flow_arrival hg]
      simpa using hne
    rw [hfilter] at hv
    have hfull := finds_replicate hr hf hpf (capacityOf rule / len.toNat) (Nat.div_mul_le_self _ _)
      (finds_empty rule (bucketKey rule (tupleOf f)) 0)
    rw [hkey] at hfull
    have hno := (handle_finds hr hg hpg hfull).1
    have hyes := (handle_finds hr hg hpg (finds_empty rule (bucketKey rule (tupleOf g)) 0)).1.mpr hlen
    have := hno.mp (hv.trans hyes)
    have := Nat.lt_div_mul_add hpos (a := capacityOf rule)
    omega

/-! ## A flow that is never paid for -/

theorem toNat_sub_zero (n : Nat) (h : n < 2 ^ 64) : (UInt64.ofNat n - 0).toNat = n := by
  rw [UInt64.sub_zero]
  exact UInt64.toNat_ofNat_of_lt' h

/-- There are times at which a check in between changes what a later one finds: the credit
    is rounded down, and from 2^64 on it wraps. -/
theorem poll_matters {r : UInt32} {c : Nat} (hr : 0 < r.toNat) (h28 : 28 ≤ c) (h40 : c < 40) :
    ∃ t1 t2 : UInt64, ∃ l : Nat, 28 ≤ l ∧ l < 40 ∧
      ¬ (l ≤ TokenBucket.level c (TokenBucket.level c 0 (credit r 0 t1)) (credit r t1 t2) ↔
        l ≤ TokenBucket.level c 0 (credit r 0 t2)) := by
  have hlt := r.toNat_lt
  unfold TokenBucket.level
  by_cases h1 : r.toNat = 1
  · refine ⟨1, .ofNat (c * 1000000000), c, h28, h40, ?_⟩
    have h01 : credit r 0 1 = 0 := by simp [credit, h1]
    have h02 : credit r 0 (.ofNat (c * 1000000000)) = c := by
      rw [credit, toNat_sub_zero _ (by omega), h1]
      omega
    have h12 : credit r 1 (.ofNat (c * 1000000000)) = c - 1 := by
      have hle : (1 : UInt64) ≤ .ofNat (c * 1000000000) := by
        apply UInt64.le_iff_toNat_le.mpr
        rw [UInt64.toNat_ofNat_of_lt' (by show _ < 2 ^ 64; omega)]
        show 1 ≤ _
        omega
      rw [credit, UInt64.toNat_sub_of_le _ _ hle, UInt64.toNat_ofNat_of_lt' (by show _ < 2 ^ 64; omega), h1,
        show (1 : UInt64).toNat = 1 from rfl]
      omega
    rw [h01, h02, h12]
    omega
  · obtain ⟨q, hq⟩ : ∃ q, q = 2 ^ 64 / r.toNat := ⟨_, rfl⟩
    have hqr : q * r.toNat ≤ 2 ^ 64 := hq ▸ Nat.div_mul_le_self _ _
    have hqr' : 2 ^ 64 < q * r.toNat + r.toNat := hq ▸ Nat.lt_div_mul_add hr
    have hq1 : 2 ≤ q := by
      rw [hq]
      exact (Nat.le_div_iff_mul_le hr).mpr (by omega)
    have hq2 : q ≤ 2 ^ 63 := by
      rw [hq]
      exact (Nat.div_le_div_left (by omega : 2 ≤ r.toNat) (by decide)).trans (by decide)
    refine ⟨.ofNat (q - 1), .ofNat (q + 1), 28, le_refl _, by decide, ?_⟩
    have h01 : 40 ≤ credit r 0 (.ofNat (q - 1)) := by
      rw [credit, toNat_sub_zero _ (by omega), Nat.sub_mul, one_mul, Nat.mod_eq_of_lt (by omega)]
      omega
    have h02 : credit r 0 (.ofNat (q + 1)) ≤ 4 := by
      rw [credit, toNat_sub_zero _ (by omega), Nat.add_mul, one_mul]
      omega
    omega

/-- The checks of `g` change what is accepted of `f`, though no bucket can pay for `g`. -/
theorem polled (hr : rules.lookup 0 = some rule) (hf : f.protocol = ipprotoUdp) (hg : g.protocol = ipprotoTcp)
    (hpf : Passes rule (tupleOf f)) (hpg : Passes rule (tupleOf g)) (hne : f ≠ g)
    (hkey : bucketKey rule (tupleOf f) = bucketKey rule (tupleOf g)) (h28 : 28 ≤ capacityOf rule)
    (h40 : capacityOf rule < 40) :
    Broken rules rule := by
  have hrate : 0 < rule.rateBps.toUInt32.toNat := by
    rcases Nat.eq_zero_or_pos rule.rateBps.toUInt32.toNat with h | h
    · simp [capacityOf, capacity, h] at h28
    · exact h
  obtain ⟨t1, t2, l, hl28, hl40, hdiff⟩ := poll_matters hrate h28 h40
  have hfc : ∀ n : Nat, 28 ≤ n → n < 40 → Carries f.protocol (.ofNat n) ∧ (UInt16.ofNat n).toNat = n := by
    intro n h h'
    have he : (UInt16.ofNat n).toNat = n := UInt16.toNat_ofNat_of_lt' (by show _ < 2 ^ 16; omega)
    exact ⟨.inl ⟨hf, by omega⟩, he⟩
  obtain ⟨hc0, hn0⟩ := hfc (capacityOf rule) h28 h40
  obtain ⟨hc2, hn2⟩ := hfc l hl28 hl40
  have hcg : Carries g.protocol 40 := .inr ⟨hg, by decide⟩
  let p0 := arrival rule f (.ofNat (capacityOf rule)) 0
  let p1 := arrival rule g 40 t1
  let p2 := arrival rule f (.ofNat l) t2
  refine ⟨[p0, p1, p2], roomFor_of_key (k := bucketKey rule (tupleOf f)) ?_, ?_⟩
  · intro p hp t ht
    simp only [List.mem_cons, List.not_mem_nil, or_false] at hp
    rcases hp with rfl | rfl | rfl
    · rw [match_arrival hc0 hpf] at ht; cases ht; rfl
    · rw [match_arrival hcg hpg] at ht; cases ht; exact hkey.symm
    · rw [match_arrival hc2 hpf] at ht; cases ht; rfl
  · intro hi
    have hv := hi [p0, p1] p2 [] rfl
    have hfilter : [p0, p1].filter (fun q => q.flow = p2.flow) = [p0] := by
      have h1 : p1.flow ≠ some f := by
        rw [flow_arrival hcg]
        simpa using hne.symm
      rw [flow_arrival hc2]
      simp [h1, p0, flow_arrival hc0]
    rw [hfilter] at hv
    -- the first packet takes all there is
    have h0 := (handle_finds hr hc0 hpf (finds_empty rule (bucketKey rule (tupleOf f)) 0)).2
    rw [hn0, if_pos (le_refl _), Nat.sub_self] at h0
    have halone := (handle_finds hr hc2 hpf (h0 t2)).1
    have h1 := h0 t1
    rw [hkey] at h1
    have hle := finds_le h1
    have h2 := (handle_finds hr hcg hpg h1).2 t2
    rw [if_neg (by show ¬ 40 ≤ _; omega), ← hkey] at h2
    have hboth := (handle_finds hr hc2 hpf h2).1
    rw [hn2] at halone hboth
    exact hdiff (hboth.symm.trans ((iff_of_eq (congrArg (· = Verdict.accept) hv)).trans halone))

/-! ## Exactly the rules that separate -/

/-- A flow to the rule's address. -/
def flowTo (rule : IpProPortRule) (port : UInt16) (protocol : UInt8) : Flow := ⟨rule.targetIp, port, protocol⟩

theorem key_flowTo (he : Enabled rule) {p q : UInt16} {a b : UInt8}
    (h : p.toNat ||| a.toNat = q.toNat ||| b.toNat) :
    bucketKey rule (tupleOf (flowTo rule p a)) = bucketKey rule (tupleOf (flowTo rule q b)) :=
  (bucketKey_eq_iff he).mpr ⟨rfl, h⟩

theorem broken_of_not_separates (hr : rules.lookup 0 = some rule) (he : Enabled rule)
    (hs : ¬ Separates rule) :
    Broken rules rule := by
  obtain ⟨hcap, hs⟩ := not_or.mp hs
  by_cases hproto : rule.protocolEnable = 1
  · rw [if_pos hproto] at hs
    obtain ⟨hport, hs⟩ := not_or.mp hs
    obtain ⟨hshort, hs⟩ := not_or.mp hs
    by_cases h6 : rule.targetProtocol = ipprotoTcp
    · have h40 : ¬ capacityOf rule < 40 := fun h => hshort ⟨h6, h⟩
      exact drained 40 (f := flowTo rule 0 ipprotoTcp) (g := flowTo rule 2 ipprotoTcp) hr
        (.inr ⟨rfl, by decide⟩) (.inr ⟨rfl, by decide⟩)
        ⟨fun _ => rfl, fun h => absurd h hport, fun _ => h6.symm⟩
        ⟨fun _ => rfl, fun h => absurd h hport, fun _ => h6.symm⟩ (by simp [flowTo])
        (key_flowTo he (by decide)) (by show 40 ≤ _; omega)
    · have h17 : rule.targetProtocol = ipprotoUdp := not_not.mp fun h => hs ⟨h6, h⟩
      exact drained 28 (f := flowTo rule 0 ipprotoUdp) (g := flowTo rule 1 ipprotoUdp) hr
        (.inl ⟨rfl, by decide⟩) (.inl ⟨rfl, by decide⟩)
        ⟨fun _ => rfl, fun h => absurd h hport, fun _ => h17.symm⟩
        ⟨fun _ => rfl, fun h => absurd h hport, fun _ => h17.symm⟩ (by simp [flowTo])
        (key_flowTo he (by decide)) (by show 28 ≤ _; omega)
  · rw [if_neg hproto] at hs
    by_cases hport : rule.portEnable = 1
    · obtain ⟨h0, hcov⟩ := not_or.mp fun h => hs ⟨hport, h⟩
      have hkey := key_flowTo he ((or_tcp_eq_or_udp _).mpr (not_not.mp hcov)).symm
        (p := rule.targetPort) (q := rule.targetPort) (a := ipprotoUdp) (b := ipprotoTcp)
      have hpass : ∀ a, Passes rule (tupleOf (flowTo rule rule.targetPort a)) :=
        fun a => ⟨fun _ => rfl, fun _ => rfl, fun h => absurd h hproto⟩
      have hne : flowTo rule rule.targetPort ipprotoUdp ≠ flowTo rule rule.targetPort ipprotoTcp := by
        simp [flowTo, ipprotoUdp, ipprotoTcp]
      by_cases h40 : capacityOf rule < 40
      · exact polled hr rfl rfl (hpass _) (hpass _) hne hkey (by omega) h40
      · exact drained 40 hr (.inl ⟨rfl, by decide⟩) (.inr ⟨rfl, by decide⟩) (hpass _) (hpass _) hne hkey
          (by show 40 ≤ _; omega)
    · exact drained 28 (f := flowTo rule 0 ipprotoUdp) (g := flowTo rule 1 ipprotoUdp) hr
        (.inl ⟨rfl, by decide⟩) (.inl ⟨rfl, by decide⟩)
        ⟨fun _ => rfl, fun h => absurd h hport, fun h => absurd h hproto⟩
        ⟨fun _ => rfl, fun h => absurd h hport, fun h => absurd h hproto⟩ (by simp [flowTo])
        (key_flowTo he (by decide)) (by show 28 ≤ _; omega)

/-- Under any rule a sequence whose flows have keys of their own is isolated, and the
    rules under which every sequence is are those that separate. -/
theorem flows_isolated (hr : rules.lookup 0 = some rule) (he : Enabled rule) :
    (∀ m ps, RoomFor rule m ps → Apart rule ps → Isolated rules m ps) ∧
      ((∀ m ps, RoomFor rule m ps → Isolated rules m ps) ↔ Separates rule) := by
  refine ⟨fun m ps hroom ha => isolated_of_apart hr he hroom ha, ?_,
    fun hs m ps hroom => isolated_of_separates hr he hs hroom⟩
  intro h
  by_contra hs
  obtain ⟨ps, hroom, hno⟩ := broken_of_not_separates hr he hs
  exact hno (h emptyMaps ps hroom)

def oneRule (rule : IpProPortRule) : BoundedMap UInt32 IpProPortRule maxRules :=
  (BoundedMap.empty.update 0 rule).getD .empty

/-- 28 bytes for the ingress of 10.0.0.2, whatever the port. -/
def ruleOfAddress : IpProPortRule where
  targetIp := 0x0a000002
  targetPort := 0
  targetProtocol := 0
  rateBps := 112
  timeScale := 1
  gress := 0
  ipEnable := 1
  portEnable := 0
  protocolEnable := 0

/-- The rule for UDP port 53 of the same address. -/
def ruleOfService : IpProPortRule :=
  { ruleOfAddress with targetPort := 53, targetProtocol := ipprotoUdp, portEnable := 1, protocolEnable := 1 }

theorem service_isolated :
    (∀ m ps, RoomFor ruleOfService m ps → Isolated (oneRule ruleOfService) m ps) ∧ Separates ruleOfService :=
  have hr : (oneRule ruleOfService).lookup 0 = some ruleOfService := rfl
  ⟨(flows_isolated hr (.inl (by decide))).2.mpr (.inr (by simp [ruleOfService])), .inr (by simp [ruleOfService])⟩

theorem port_81_pays_for_port_80 :
    ¬ ∀ rules rule, rules.lookup 0 = some rule → Enabled rule →
      ∀ m ps, RoomFor rule m ps → Isolated rules m ps := by
  intro h
  have hv := h (oneRule ruleOfAddress) ruleOfAddress rfl (.inl (by decide)) emptyMaps
    [arrival ruleOfAddress ⟨0x0a000002, 80, ipprotoUdp⟩ 28 0,
      arrival ruleOfAddress ⟨0x0a000002, 81, ipprotoUdp⟩ 28 0]
    (by unfold RoomFor; decide +kernel) [arrival ruleOfAddress ⟨0x0a000002, 80, ipprotoUdp⟩ 28 0]
    (arrival ruleOfAddress ⟨0x0a000002, 81, ipprotoUdp⟩ 28 0) [] rfl
  exact absurd hv (by decide +kernel)

end Ksight.Wirefisher.Port

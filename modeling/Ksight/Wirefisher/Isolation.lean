/-
  Ksight.Wirefisher.Isolation — whether the port limiter's flows share a bucket
  (src/net/wirefisher/bpf/tc_port.bpf.h: `netfilter_handle`, `buckets`).

  A flow is a destination address, port and protocol. The law (`Isolated`): a packet gets
  the verdict it gets when the packets of every other flow are taken out of what came
  before it. It holds of every sequence in which no two flows meet in one key (`Apart`),
  whatever the rule is, and of every sequence there is under a rule of `Separates`
  (`isolated_of_separates`): one that fixes port and protocol, or leaves open only what
  the key can tell apart, or whose bucket can pay for no packet that could meet another.
-/

import Mathlib.Data.Finset.Union
import Ksight.Wirefisher.PortHandle

namespace Ksight.Wirefisher.Port

open Ksight.Lib

/-- A packet at its hook, with the clock readings of its handler. -/
structure Arrival where
  ctx : BpfNfCtx
  readings : Readings

variable (rules : BoundedMap UInt32 IpProPortRule maxRules)

def mapsAfter : List Arrival → Maps → Maps
  | [], m => m
  | p :: ps, m => mapsAfter ps (netfilterHandle rules p.ctx p.readings m).2.2

/-- The verdict on a packet that comes after `ps`. -/
def verdictAfter (m : Maps) (ps : List Arrival) (p : Arrival) : Verdict :=
  (netfilterHandle rules p.ctx p.readings (mapsAfter rules ps m)).1

structure Flow where
  dstIp : UInt32
  dstPort : UInt16
  protocol : UInt8
  deriving DecidableEq

def PacketTuple.flow (t : PacketTuple) : Flow := ⟨t.dstIp, t.dstPort, t.protocol⟩

/-- The flow of a packet, if the program can read one from it. -/
def Arrival.flow (p : Arrival) : Option Flow := (parseSkBuff p.ctx.skb).map PacketTuple.flow

/-! ## The law -/

def Isolated (m : Maps) (ps : List Arrival) : Prop :=
  ∀ pre p post, ps = pre ++ p :: post →
    verdictAfter rules m pre p = verdictAfter rules m (pre.filter fun q => q.flow = p.flow) p

variable (rule : IpProPortRule)

/-- The bucket keys of the packets. -/
def keysOf (ps : List Arrival) : Finset UInt64 :=
  (ps.filterMap fun p => (ruleMatch rule p.ctx).map (bucketKey rule)).toFinset

/-- The buckets map has room for every key. -/
def RoomFor (m : Maps) (ps : List Arrival) : Prop := (m.buckets.keys ∪ keysOf rule ps).card ≤ maxBuckets

/-- The capacity of the buckets of the rule. -/
def capacityOf : Nat := capacity ⟨rule.rateBps.toUInt32, rule.timeScale⟩

/-- The condition on a sequence: two packets of the rule to one address whose port and
    protocol have the same bitwise or are of one flow. -/
def Apart (ps : List Arrival) : Prop :=
  ∀ p ∈ ps, ∀ q ∈ ps, ∀ t u, ruleMatch rule p.ctx = some t → ruleMatch rule q.ctx = some u →
    t.dstIp = u.dstIp → portProtocol t = portProtocol u → t.flow = u.flow

/-! ## The buckets along a sequence -/

variable {rules rule}

theorem mapsAfter_append (ps qs : List Arrival) (m : Maps) :
    mapsAfter rules (ps ++ qs) m = mapsAfter rules qs (mapsAfter rules ps m) := by
  induction ps generalizing m with
  | nil => rfl
  | cons p ps ih => exact ih _

variable (hr : rules.lookup 0 = some rule)
include hr

theorem verdict_of_none {p : Arrival} (hm : ruleMatch rule p.ctx = none) (m : Maps) :
    (netfilterHandle rules p.ctx p.readings m).1 = .accept ∧
      (netfilterHandle rules p.ctx p.readings m).2.2.buckets = m.buckets := by
  rw [netfilterHandle_pass hr hm]
  exact ⟨rfl, rfl⟩

theorem verdict_of_some {p : Arrival} {t : PacketTuple} (hm : ruleMatch rule p.ctx = some t) (m : Maps) :
    (netfilterHandle rules p.ctx p.readings m).1 =
        (rateLimitCheck p.readings.checkNow (rateLimit rule p.ctx.skb) (bucketKey rule t) m.buckets).1 ∧
      (netfilterHandle rules p.ctx p.readings m).2.2.buckets =
        (rateLimitCheck p.readings.checkNow (rateLimit rule p.ctx.skb) (bucketKey rule t) m.buckets).2 := by
  rw [netfilterHandle_match hr hm]
  exact ⟨rfl, rfl⟩

/-- A packet leaves every bucket but that of its own key alone. -/
theorem lookup_other {p : Arrival} {k : UInt64}
    (hk : ∀ t, ruleMatch rule p.ctx = some t → bucketKey rule t ≠ k) (m : Maps) :
    (netfilterHandle rules p.ctx p.readings m).2.2.buckets.lookup k = m.buckets.lookup k := by
  rcases hm : ruleMatch rule p.ctx with _ | t
  · rw [(verdict_of_none hr hm m).2]
  · rw [(verdict_of_some hr hm m).2]
    exact rateLimitCheck_other _ _ _ (Ne.symm (hk t hm))

/-- Maps that agree on a packet's bucket and have room for it give one verdict and agree
    afterwards. -/
theorem verdict_congr {p : Arrival} {t : PacketTuple} (hm : ruleMatch rule p.ctx = some t) {m m' : Maps}
    (h : m.buckets.lookup (bucketKey rule t) = m'.buckets.lookup (bucketKey rule t))
    (hroom : Room m.buckets (bucketKey rule t)) (hroom' : Room m'.buckets (bucketKey rule t)) :
    (netfilterHandle rules p.ctx p.readings m).1 = (netfilterHandle rules p.ctx p.readings m').1 ∧
      (netfilterHandle rules p.ctx p.readings m).2.2.buckets.lookup (bucketKey rule t) =
        (netfilterHandle rules p.ctx p.readings m').2.2.buckets.lookup (bucketKey rule t) := by
  have hfound : found p.readings.checkNow (rateLimit rule p.ctx.skb) (bucketKey rule t) m.buckets =
      found p.readings.checkNow (rateLimit rule p.ctx.skb) (bucketKey rule t) m'.buckets := by
    rw [found, found, h]
  obtain ⟨hv, hb, -⟩ := rateLimitCheck_room p.readings.checkNow (rateLimit rule p.ctx.skb) hroom
  obtain ⟨hv', hb', -⟩ := rateLimitCheck_room p.readings.checkNow (rateLimit rule p.ctx.skb) hroom'
  rw [(verdict_of_some hr hm m).1, (verdict_of_some hr hm m').1, (verdict_of_some hr hm m).2,
    (verdict_of_some hr hm m').2, hv, hv', hb, hb', hfound]
  exact ⟨rfl, rfl⟩

theorem keys_subset {p : Arrival} {s : Finset UInt64} {m : Maps} (hm : m.buckets.keys ⊆ s)
    (hp : ∀ t, ruleMatch rule p.ctx = some t → bucketKey rule t ∈ s) :
    (netfilterHandle rules p.ctx p.readings m).2.2.buckets.keys ⊆ s := by
  rcases he : ruleMatch rule p.ctx with _ | t
  · rw [(verdict_of_none hr he m).2]
    exact hm
  · rw [(verdict_of_some hr he m).2]
    exact (keys_rateLimitCheck _ _ _ _).trans (Finset.insert_subset (hp t he) hm)

theorem keys_mapsAfter {s : Finset UInt64} {ps : List Arrival}
    (hkeys : ∀ p ∈ ps, ∀ t, ruleMatch rule p.ctx = some t → bucketKey rule t ∈ s) {m : Maps}
    (hm : m.buckets.keys ⊆ s) :
    (mapsAfter rules ps m).buckets.keys ⊆ s := by
  induction ps generalizing m with
  | nil => exact hm
  | cons p ps ih =>
    exact ih (fun q hq => hkeys q (List.mem_cons_of_mem _ hq))
      (keys_subset hr hm (hkeys p List.mem_cons_self))

/-- The bucket of a flow after a sequence is the one it has after the packets of the flow
    alone, if no other flow of the sequence has its key. -/
theorem lookup_filter {s : Finset UInt64} (hs : s.card ≤ maxBuckets) {f : Option Flow} {k : UInt64}
    (ps : List Arrival)
    (hkeys : ∀ p ∈ ps, ∀ t, ruleMatch rule p.ctx = some t →
      bucketKey rule t ∈ s ∧ (p.flow = f ↔ bucketKey rule t = k))
    {m m' : Maps} (hm : m.buckets.keys ⊆ s) (hm' : m'.buckets.keys ⊆ s)
    (h : m.buckets.lookup k = m'.buckets.lookup k) :
    (mapsAfter rules ps m).buckets.lookup k =
      (mapsAfter rules (ps.filter fun p => p.flow = f) m').buckets.lookup k := by
  induction ps generalizing m m' with
  | nil => exact h
  | cons p ps ih =>
    have hps := fun q hq => hkeys q (List.mem_cons_of_mem _ hq)
    have hp := hkeys p List.mem_cons_self
    have hsub := keys_subset hr (p := p) hm fun t ht => (hp t ht).1
    by_cases e : p.flow = f
    · have hsub' := keys_subset hr (p := p) hm' fun t ht => (hp t ht).1
      rw [List.filter_cons_of_pos (by simpa using e)]
      refine ih hps hsub hsub' ?_
      rcases he : ruleMatch rule p.ctx with _ | t
      · rw [(verdict_of_none hr he m).2, (verdict_of_none hr he m').2, h]
      · obtain ⟨hmem, hkey⟩ := hp t he
        have hk := hkey.mp e
        rw [← hk] at h ⊢
        exact (verdict_congr hr he h (room_of_subset hs hm hmem) (room_of_subset hs hm' hmem)).2
    · rw [List.filter_cons_of_neg (by simpa using e)]
      refine ih hps hsub hm' ?_
      rw [lookup_other hr (fun t ht hk => e ((hp t ht).2.mpr hk)) m, h]

omit hr in
theorem mem_keysOf {ps : List Arrival} {p : Arrival} {t : PacketTuple} (hp : p ∈ ps)
    (ht : ruleMatch rule p.ctx = some t) :
    bucketKey rule t ∈ keysOf rule ps :=
  List.mem_toFinset.mpr (List.mem_filterMap.mpr ⟨p, hp, by simp [ht]⟩)

omit hr in
theorem flow_of_match {p : Arrival} {t : PacketTuple} (h : ruleMatch rule p.ctx = some t) :
    p.flow = some t.flow := by
  simp [Arrival.flow, (ruleMatch_eq_some.mp h).2.1]

/-- Whatever part of a sequence came before, its buckets have room for its packets. -/
theorem room_after_part {m : Maps} {ps qs : List Arrival} (hroom : RoomFor rule m ps)
    (hq : ∀ q ∈ qs, q ∈ ps) {p : Arrival} {t : PacketTuple} (hp : p ∈ ps)
    (ht : ruleMatch rule p.ctx = some t) :
    Room (mapsAfter rules qs m).buckets (bucketKey rule t) := by
  refine room_of_subset hroom (keys_mapsAfter hr ?_ Finset.subset_union_left)
    (Finset.mem_union_right _ (mem_keysOf hp ht))
  exact fun q hqs u hu => Finset.mem_union_right _ (mem_keysOf (hq q hqs) hu)

/-- A packet that the rule does not match is accepted, so that only the others matter; their
    buckets have room. -/
theorem isolated_of_matched {m : Maps} {ps : List Arrival} (hroom : RoomFor rule m ps)
    (h : ∀ pre, (∀ q ∈ pre, q ∈ ps) → ∀ p ∈ ps, ∀ t, ruleMatch rule p.ctx = some t →
      Room (mapsAfter rules pre m).buckets (bucketKey rule t) →
      Room (mapsAfter rules (pre.filter fun q => q.flow = p.flow) m).buckets (bucketKey rule t) →
      verdictAfter rules m pre p = verdictAfter rules m (pre.filter fun q => q.flow = p.flow) p) :
    Isolated rules m ps := by
  intro pre p post hps
  have hmem : ∀ q ∈ pre, q ∈ ps := fun q hq => hps ▸ List.mem_append_left _ hq
  have hp : p ∈ ps := hps ▸ List.mem_append_right _ List.mem_cons_self
  rcases hm : ruleMatch rule p.ctx with _ | t
  · rw [verdictAfter, verdictAfter, (verdict_of_none hr hm _).1, (verdict_of_none hr hm _).1]
  · apply h pre hmem p hp t hm
    · exact room_after_part hr hroom hmem hp hm
    · exact room_after_part hr hroom (fun q hq => hmem q (List.mem_of_mem_filter hq)) hp hm

/-- No two flows meet in one key: the sequence isolates them. -/
theorem isolated_of_apart (he : Enabled rule) {m : Maps} {ps : List Arrival} (hroom : RoomFor rule m ps)
    (ha : Apart rule ps) :
    Isolated rules m ps := by
  apply isolated_of_matched hr hroom
  intro pre hmem p hp t hm hall hown
  have hkeys : ∀ q ∈ pre, ∀ u, ruleMatch rule q.ctx = some u →
      bucketKey rule u ∈ m.buckets.keys ∪ keysOf rule ps ∧
        (q.flow = p.flow ↔ bucketKey rule u = bucketKey rule t) := by
    intro q hq u hu
    refine ⟨Finset.mem_union_right _ (mem_keysOf (hmem q hq) hu), ?_⟩
    rw [flow_of_match hu, flow_of_match hm, Option.some_inj, bucketKey_eq_iff he]
    constructor
    · intro h
      simp only [PacketTuple.flow, Flow.mk.injEq] at h
      obtain ⟨hip, hport, hproto⟩ := h
      exact ⟨hip, by rw [portProtocol, portProtocol, hport, hproto]⟩
    · intro h
      exact ha q (hmem q hq) p hp u t hu hm h.1 h.2
  have hinit : m.buckets.keys ⊆ m.buckets.keys ∪ keysOf rule ps := Finset.subset_union_left
  have hl := lookup_filter hr hroom pre hkeys hinit hinit rfl
  exact (verdict_congr hr hm hl hall hown).1

/-! ## Packets no bucket can pay for -/

theorem verdict_of_long {p : Arrival} {t : PacketTuple} (hm : ruleMatch rule p.ctx = some t) {m : Maps}
    (hroom : Room m.buckets (bucketKey rule t)) (hlen : capacityOf rule < p.ctx.skb.data.length) :
    (netfilterHandle rules p.ctx p.readings m).1 = .drop := by
  rw [(verdict_of_some hr hm m).1, (rateLimitCheck_room _ _ hroom).1]
  set b := found p.readings.checkNow (rateLimit rule p.ctx.skb) (bucketKey rule t) m.buckets
  obtain ⟨-, ha, -⟩ := charge_spec p.readings.checkNow (rateLimit rule p.ctx.skb) b
  have hle := refilled_le p.readings.checkNow (rateLimit rule p.ctx.skb) b
  have hcap : (maxBucket (rateLimit rule p.ctx.skb).rateBps (rateLimit rule p.ctx.skb).timeScale).toNat =
      capacityOf rule := toNat_maxBucket _ _
  have hpl : (rateLimit rule p.ctx.skb).packetLen.toNat = p.ctx.skb.data.length := SkBuff.toNat_len _
  rcases hv : (charge p.readings.checkNow (rateLimit rule p.ctx.skb) b).1 with _ | _
  · have := ha.mp hv
    omega
  · rfl

/-- Packets that are all longer than the capacity are all dropped, with or without the
    others. -/
theorem isolated_of_long {m : Maps} {ps : List Arrival} (hroom : RoomFor rule m ps)
    (hlong : ∀ p ∈ ps, ∀ t, ruleMatch rule p.ctx = some t → capacityOf rule < p.ctx.skb.data.length) :
    Isolated rules m ps := by
  apply isolated_of_matched hr hroom
  intro pre hmem p hp t hm hall hown
  have hlen := hlong p hp t hm
  rw [verdictAfter, verdictAfter, verdict_of_long hr hm hall hlen, verdict_of_long hr hm hown hlen]

/-! ## Rules that keep their flows apart -/

omit hr

/-- The condition on a rule. The shortest packet has 28 bytes, the shortest TCP packet 40;
    a port is read from TCP and UDP packets alone, and 0x17 is where 6 and 17 differ. -/
def Separates (rule : IpProPortRule) : Prop :=
  capacityOf rule < 28 ∨
    if rule.protocolEnable = 1 then
      rule.portEnable = 1 ∨ rule.targetProtocol = ipprotoTcp ∧ capacityOf rule < 40 ∨
        rule.targetProtocol ≠ ipprotoTcp ∧ rule.targetProtocol ≠ ipprotoUdp
    else rule.portEnable = 1 ∧ (rule.targetPort = 0 ∨ rule.targetPort.toNat &&& 0x17 ≠ 0x17)

/-- TCP and UDP look the same in a key where the port covers the bits they differ in. -/
theorem or_tcp_eq_or_udp (port : Nat) : port ||| 6 = port ||| 17 ↔ port &&& 0x17 = 0x17 := by
  have hx : 0x17 = 6 ^^^ 17 := rfl
  constructor
  · intro h
    apply Nat.eq_of_testBit_eq
    intro i
    have hi := congrArg (Nat.testBit · i) h
    simp only [Nat.testBit_or] at hi
    rw [hx, Nat.testBit_and, Nat.testBit_xor]
    revert hi
    cases port.testBit i <;> cases Nat.testBit 6 i <;> cases Nat.testBit 17 i <;> decide
  · intro h
    apply Nat.eq_of_testBit_eq
    intro i
    have hi := congrArg (Nat.testBit · i) h
    simp only [hx, Nat.testBit_and, Nat.testBit_xor] at hi
    rw [Nat.testBit_or, Nat.testBit_or]
    revert hi
    cases port.testBit i <;> cases Nat.testBit 6 i <;> cases Nat.testBit 17 i <;> decide

/-- Tuples of packets to one port that share a key share the protocol, unless the port
    covers the difference. -/
theorem protocol_eq_of_port {skb skb' : SkBuff} {t u : PacketTuple} (ht : parseSkBuff skb = some t)
    (hu : parseSkBuff skb' = some u) (hport : t.dstPort = u.dstPort)
    (hc : t.dstPort = 0 ∨ t.dstPort.toNat &&& 0x17 ≠ 0x17) (h : portProtocol t = portProtocol u) :
    t.protocol = u.protocol := by
  unfold portProtocol at h
  rw [← hport] at h
  rcases hc with hc | hc
  · apply UInt8.toNat_inj.mp
    simpa [hc] using h
  · by_cases h0 : t.dstPort = 0
    · apply UInt8.toNat_inj.mp
      simpa [h0] using h
    · have htp : t.protocol = ipprotoTcp ∨ t.protocol = ipprotoUdp := by
        by_contra hn
        obtain ⟨h1, h2⟩ := not_or.mp hn
        exact h0 ((parse_spec ht).2.2 h1 h2)
      have hup : u.protocol = ipprotoTcp ∨ u.protocol = ipprotoUdp := by
        by_contra hn
        obtain ⟨h1, h2⟩ := not_or.mp hn
        exact h0 (hport.trans ((parse_spec hu).2.2 h1 h2))
      rcases htp with e | e <;> rcases hup with e' | e' <;> rw [e, e'] at h ⊢
      · exact absurd ((or_tcp_eq_or_udp _).mp h) hc
      · exact absurd ((or_tcp_eq_or_udp _).mp h.symm) hc

theorem apart_of_separates (hs : Separates rule) (hcap : 28 ≤ capacityOf rule)
    (htcp : ¬ (rule.protocolEnable = 1 ∧ rule.targetProtocol = ipprotoTcp ∧ capacityOf rule < 40))
    (ps : List Arrival) :
    Apart rule ps := by
  intro p _ q _ t u ht hu hip hpp
  obtain ⟨-, htp, -, htport, htproto⟩ := ruleMatch_eq_some.mp ht
  obtain ⟨-, hup, -, huport, huproto⟩ := ruleMatch_eq_some.mp hu
  have hs := hs.resolve_left (by omega)
  by_cases hproto : rule.protocolEnable = 1
  · rw [if_pos hproto] at hs
    have he : t.protocol = u.protocol := (htproto hproto).trans (huproto hproto).symm
    have hport : t.dstPort = u.dstPort := by
      rcases hs with hport | hshort | ⟨h6, h17⟩
      · exact (htport hport).trans (huport hport).symm
      · exact absurd ⟨hproto, hshort⟩ htcp
      · rw [← htproto hproto] at h6 h17
        rw [(parse_spec htp).2.2 h6 h17, (parse_spec hup).2.2 (he ▸ h6) (he ▸ h17)]
    simp [PacketTuple.flow, hip, hport, he]
  · rw [if_neg hproto] at hs
    obtain ⟨hport, hcov⟩ := hs
    have he : t.dstPort = u.dstPort := (htport hport).trans (huport hport).symm
    rw [← htport hport] at hcov
    simp [PacketTuple.flow, hip, he, protocol_eq_of_port htp hup he hcov hpp]

/-- A rule of `Separates` isolates the flows of every sequence. -/
theorem isolated_of_separates (hr : rules.lookup 0 = some rule) (he : Enabled rule) (hs : Separates rule)
    {m : Maps} {ps : List Arrival} (hroom : RoomFor rule m ps) :
    Isolated rules m ps := by
  by_cases hcap : capacityOf rule < 28
  · refine isolated_of_long hr hroom fun p _ t ht => ?_
    have := (parse_spec (ruleMatch_eq_some.mp ht).2.1).1
    omega
  · by_cases htcp : rule.protocolEnable = 1 ∧ rule.targetProtocol = ipprotoTcp ∧ capacityOf rule < 40
    · obtain ⟨hproto, hp6, h40⟩ := htcp
      refine isolated_of_long hr hroom fun p _ t ht => ?_
      obtain ⟨-, hparse, -, -, hp⟩ := ruleMatch_eq_some.mp ht
      have := (parse_spec hparse).2.1 ((hp hproto).trans hp6)
      omega
    · exact isolated_of_apart hr he hroom (apart_of_separates hs (by omega) htcp ps)

end Ksight.Wirefisher.Port

/-
  Ksight.Wirefisher.PortHandle — the netfilter program of the port limiter
  (src/net/wirefisher/bpf/tc_port.bpf.h: `parse_sk_buff`, `send_message`,
  `netfilter_handle`).

  The program is given a packet and the hook it runs at. Where the rule is about the
  packet it updates the monitored rates, reports them, and charges the packet to the
  bucket of its key; everywhere else it accepts and touches nothing. Each of the four
  places that read the clock has a reading of its own (`Readings`).

  `netfilterHandle_match`: the verdict and the buckets are those of one `rate_limit_check`
  on the bucket key, for a packet `ruleMatch` gives a tuple for; `netfilterHandle_pass`:
  any other packet leaves the maps alone. `bucketKey_eq_iff`: the key tells addresses
  apart, but of port and protocol it has only the bitwise or.
-/

import Ksight.Wirefisher.Conformance
import Ksight.Wirefisher.FlowRate
import Ksight.Wirefisher.SkBuff

namespace Ksight.Wirefisher.Port

open Ksight.Lib

structure IpProPortRule where
  targetIp : UInt32
  targetPort : UInt16
  targetProtocol : UInt8
  rateBps : UInt64
  timeScale : UInt32
  gress : BitVec 1
  ipEnable : BitVec 1
  portEnable : BitVec 1
  protocolEnable : BitVec 5

structure PacketTuple where
  srcIp : UInt32
  dstIp : UInt32
  srcPort : UInt16
  dstPort : UInt16
  protocol : UInt8
  deriving DecidableEq

structure MessageGet where
  instanceRateBps : UInt64
  rateBps : UInt64
  peakRateBps : UInt64
  smoothedRateBps : UInt64
  tuple : PacketTuple
  timestamp : UInt64
  deriving DecidableEq

/-- What the program is called on. -/
structure BpfNfCtx where
  hook : UInt32
  skb : SkBuff

/-- The clock as `netfilter_handle`, `update_flow_rate`, `send_message` and
    `rate_limit_check` read it, and whether the ring buffer has room for a message. -/
structure Readings where
  now : UInt64
  flowNow : UInt64
  sentNow : UInt64
  checkNow : UInt64
  reserved : Bool

def maxRules : Nat := 1024

def maxBuckets : Nat := 1024

abbrev Buckets := BoundedMap UInt64 RateBucket maxBuckets

structure Maps where
  flowRateStats : FlowRateStats
  buckets : Buckets

def parseSkBuff (skb : SkBuff) : Option PacketTuple :=
  if skb.len < 28 then none
  else
    match ipHdr skb with
    | none => none
    | some iph =>
      if iph.version ≠ 4 then none
      else
        let iphl := iph.ihl.toUInt32 * 4
        if iph.ihl < 5 ∨ skb.len ≤ iphl then none
        else
          let tuple : PacketTuple := ⟨bswap32 iph.saddr, bswap32 iph.daddr, 0, 0, iph.protocol⟩
          if iph.protocol = ipprotoUdp then
            if skb.len < iphl + sizeofUdphdr then none
            else (udpHdr skb iphl).map fun udph =>
              { tuple with srcPort := bswap16 udph.source, dstPort := bswap16 udph.dest }
          else if iph.protocol = ipprotoTcp then
            if skb.len < iphl + sizeofTcphdr then none
            else (tcpHdr skb iphl).map fun tcph =>
              { tuple with srcPort := bswap16 tcph.source, dstPort := bswap16 tcph.dest }
          else some tuple

/-- The rates of `info` and the tuple; both rates are the average one. -/
def messageOf (tuple : PacketTuple) (timestamp : UInt64) : Option FlowRateInfo → MessageGet
  | some info => ⟨info.rateBps, info.rateBps, info.peakRateBps, info.smoothRateBps, tuple, timestamp⟩
  | none => ⟨0, 0, 0, 0, tuple, timestamp⟩

def sendMessage (r : Readings) (mes : MessageGet) : Option MessageGet :=
  if r.reserved then some mes else none

def bucketKey (rule : IpProPortRule) (tuple : PacketTuple) : UInt64 :=
  if rule.ipEnable = 0 ∧ rule.portEnable = 0 ∧ rule.protocolEnable = 0 then 0
  else tuple.dstIp.toUInt64 <<< 16 ||| tuple.dstPort.toUInt64 ||| tuple.protocol.toUInt64

/-- The `rate_limit` of a packet: the rate loses its upper 32 bits. -/
def rateLimit (rule : IpProPortRule) (skb : SkBuff) : RateLimit where
  rateBps := rule.rateBps.toUInt32
  timeScale := rule.timeScale
  packetLen := skb.len

def netfilterHandle (rules : BoundedMap UInt32 IpProPortRule maxRules) (ctx : BpfNfCtx) (r : Readings)
    (m : Maps) : Verdict × Option MessageGet × Maps :=
  match rules.lookup 0 with
  | none => (.accept, none, m)
  | some rule =>
    if rule.gress = 1 ∧ ctx.hook ≠ nfInetLocalOut then (.accept, none, m)
    else if rule.gress = 0 ∧ ctx.hook ≠ nfInetLocalIn then (.accept, none, m)
    else
      match parseSkBuff ctx.skb with
      | none => (.accept, none, m)
      | some tuple =>
        if rule.ipEnable = 1 ∧ rule.targetIp ≠ tuple.dstIp then (.accept, none, m)
        else if rule.portEnable = 1 ∧ rule.targetPort ≠ tuple.dstPort then (.accept, none, m)
        else if rule.protocolEnable = 1 ∧ rule.targetProtocol ≠ tuple.protocol then (.accept, none, m)
        else
          let (info, stats) := monitor r.now r.flowNow ctx.skb.len m.flowRateStats
          let mes := sendMessage r (messageOf tuple r.sentNow info)
          let (verdict, buckets) :=
            rateLimitCheck r.checkNow (rateLimit rule ctx.skb) (bucketKey rule tuple) m.buckets
          (verdict, mes, ⟨stats, buckets⟩)

/-- What the program has read of a packet it has a tuple for. -/
theorem parse_cases {skb : SkBuff} {t : PacketTuple} (h : parseSkBuff skb = some t) :
    ∃ iph, ipHdr skb = some iph ∧ ¬ skb.len < 28 ∧ 5 ≤ iph.ihl ∧
      ((∃ udph, iph.protocol = ipprotoUdp ∧ udpHdr skb (iph.ihl.toUInt32 * 4) = some udph ∧
          t = ⟨bswap32 iph.saddr, bswap32 iph.daddr, bswap16 udph.source, bswap16 udph.dest, iph.protocol⟩) ∨
        (∃ tcph, iph.protocol = ipprotoTcp ∧ ¬ skb.len < iph.ihl.toUInt32 * 4 + sizeofTcphdr ∧
          tcpHdr skb (iph.ihl.toUInt32 * 4) = some tcph ∧
          t = ⟨bswap32 iph.saddr, bswap32 iph.daddr, bswap16 tcph.source, bswap16 tcph.dest, iph.protocol⟩) ∨
        iph.protocol ≠ ipprotoUdp ∧ iph.protocol ≠ ipprotoTcp ∧
          t = ⟨bswap32 iph.saddr, bswap32 iph.daddr, 0, 0, iph.protocol⟩) := by
  unfold parseSkBuff at h
  dsimp only at h
  split at h; · cases h
  rename_i hlen
  split at h; · cases h
  rename_i iph hiph
  split at h; · cases h
  split at h; · cases h
  rename_i hihl
  refine ⟨iph, hiph, hlen, UInt8.not_lt.mp (not_or.mp hihl).1, ?_⟩
  split at h
  · rename_i hudp
    split at h; · cases h
    obtain ⟨udph, hhdr, rfl⟩ := Option.map_eq_some_iff.mp h
    exact .inl ⟨udph, hudp, hhdr, rfl⟩
  · rename_i hudp
    split at h
    · rename_i htcp
      split at h; · cases h
      rename_i hlen'
      obtain ⟨tcph, hhdr, rfl⟩ := Option.map_eq_some_iff.mp h
      exact .inr (.inl ⟨tcph, htcp, hlen', hhdr, rfl⟩)
    · rename_i htcp
      cases h
      exact .inr (.inr ⟨hudp, htcp, rfl⟩)

/-- What it has checked of the packet's length. -/
theorem parse_spec {skb : SkBuff} {t : PacketTuple} (h : parseSkBuff skb = some t) :
    28 ≤ skb.data.length ∧ (t.protocol = ipprotoTcp → 40 ≤ skb.data.length) ∧
      (t.protocol ≠ ipprotoTcp → t.protocol ≠ ipprotoUdp → t.dstPort = 0) := by
  obtain ⟨iph, -, hlen, hihl, hcases⟩ := parse_cases h
  have hlen : 28 ≤ skb.data.length := by
    have := UInt32.le_iff_toNat_le.mp (UInt32.not_lt.mp hlen)
    simpa using this
  refine ⟨hlen, ?_⟩
  rcases hcases with ⟨udph, hudp, -, rfl⟩ | ⟨tcph, htcp, hlen', -, rfl⟩ | ⟨-, htcp, rfl⟩
  · simp [hudp, ipprotoUdp, ipprotoTcp]
  · simp only [htcp, ne_eq, not_true_eq_false, false_imp_iff, and_true, true_imp_iff]
    have h5 := UInt8.le_iff_toNat_le.mp hihl
    have h20 := UInt32.le_iff_toNat_le.mp (UInt32.not_lt.mp hlen')
    have := iph.ihl.toNat_lt
    rw [UInt32.toNat_add, toNat_iphl, SkBuff.toNat_len, show sizeofTcphdr.toNat = 20 from rfl,
      Nat.mod_eq_of_lt (by omega)] at h20
    have h5 : 5 ≤ iph.ihl.toNat := h5
    omega
  · exact ⟨fun h => absurd h htcp, fun _ _ => rfl⟩

/-! ## The packets a rule is about -/

/-- The tuple passes the rule's tests. -/
def Passes (rule : IpProPortRule) (t : PacketTuple) : Prop :=
  (rule.ipEnable = 1 → t.dstIp = rule.targetIp) ∧ (rule.portEnable = 1 → t.dstPort = rule.targetPort) ∧
    (rule.protocolEnable = 1 → t.protocol = rule.targetProtocol)

instance (rule : IpProPortRule) (t : PacketTuple) : Decidable (Passes rule t) :=
  inferInstanceAs (Decidable (_ ∧ _))

/-- The hook a rule's direction is limited at. -/
def hookOf (rule : IpProPortRule) : UInt32 := if rule.gress = 1 then nfInetLocalOut else nfInetLocalIn

/-- The tuple of a packet the rule is about. -/
def ruleMatch (rule : IpProPortRule) (ctx : BpfNfCtx) : Option PacketTuple :=
  if ctx.hook = hookOf rule then (parseSkBuff ctx.skb).filter fun t => Passes rule t else none

theorem ruleMatch_eq_some {rule : IpProPortRule} {ctx : BpfNfCtx} {t : PacketTuple} :
    ruleMatch rule ctx = some t ↔
      ctx.hook = hookOf rule ∧ parseSkBuff ctx.skb = some t ∧ Passes rule t := by
  unfold ruleMatch
  split
  · rename_i h
    simp [h, Option.filter_eq_some_iff]
  · rename_i h
    simp [h]

theorem gress_cases (rule : IpProPortRule) : rule.gress = 0 ∨ rule.gress = 1 := by
  generalize rule.gress = g
  revert g; decide

/-- A packet of the rule is monitored, reported and charged. -/
theorem netfilterHandle_match {rules : BoundedMap UInt32 IpProPortRule maxRules} {rule : IpProPortRule}
    (hr : rules.lookup 0 = some rule) {ctx : BpfNfCtx} {t : PacketTuple} (hm : ruleMatch rule ctx = some t)
    (r : Readings) (m : Maps) :
    netfilterHandle rules ctx r m =
      ((rateLimitCheck r.checkNow (rateLimit rule ctx.skb) (bucketKey rule t) m.buckets).1,
        sendMessage r (messageOf t r.sentNow (monitor r.now r.flowNow ctx.skb.len m.flowRateStats).1),
        ⟨(monitor r.now r.flowNow ctx.skb.len m.flowRateStats).2,
          (rateLimitCheck r.checkNow (rateLimit rule ctx.skb) (bucketKey rule t) m.buckets).2⟩) := by
  obtain ⟨hhook, hparse, hip, hport, hproto⟩ := ruleMatch_eq_some.mp hm
  unfold netfilterHandle
  simp only [hr, hparse]
  rw [if_neg, if_neg, if_neg, if_neg, if_neg]
  · exact fun h => h.2 (hproto h.1).symm
  · exact fun h => h.2 (hport h.1).symm
  · exact fun h => h.2 (hip h.1).symm
  · intro h; apply h.2; simp [hhook, hookOf, h.1]
  · intro h; apply h.2; simp [hhook, hookOf, h.1]

/-- Any other packet leaves the maps alone. -/
theorem netfilterHandle_pass {rules : BoundedMap UInt32 IpProPortRule maxRules} {rule : IpProPortRule}
    (hr : rules.lookup 0 = some rule) {ctx : BpfNfCtx} (hm : ruleMatch rule ctx = none) (r : Readings)
    (m : Maps) : netfilterHandle rules ctx r m = (.accept, none, m) := by
  have hno : ∀ t, ¬ (ctx.hook = hookOf rule ∧ parseSkBuff ctx.skb = some t ∧ Passes rule t) :=
    fun t h => by rw [ruleMatch_eq_some.mpr h] at hm; cases hm
  unfold netfilterHandle
  simp only [hr]
  split; · rfl
  rename_i hout
  split; · rfl
  rename_i hin
  split; · rfl
  rename_i t ht
  split; · rfl
  rename_i hip
  split; · rfl
  rename_i hport
  split; · rfl
  rename_i hproto
  refine absurd ⟨?_, ht, ?_⟩ (hno t)
  · rcases gress_cases rule with h | h <;> simp_all [hookOf]
  · refine ⟨fun h => ?_, fun h => ?_, fun h => ?_⟩
    · exact (not_not.mp fun e => hip ⟨h, e⟩).symm
    · exact (not_not.mp fun e => hport ⟨h, e⟩).symm
    · exact (not_not.mp fun e => hproto ⟨h, e⟩).symm

/-! ## The bucket key -/

/-- One of the rule's tests is on. -/
def Enabled (rule : IpProPortRule) : Prop :=
  rule.ipEnable ≠ 0 ∨ rule.portEnable ≠ 0 ∨ rule.protocolEnable ≠ 0

instance (rule : IpProPortRule) : Decidable (Enabled rule) := inferInstanceAs (Decidable (_ ∨ _))

/-- Port and protocol as they are in a key. -/
def portProtocol (t : PacketTuple) : Nat := t.dstPort.toNat ||| t.protocol.toNat

theorem portProtocol_lt (t : PacketTuple) : portProtocol t < 2 ^ 16 :=
  Nat.or_lt_two_pow t.dstPort.toNat_lt (t.protocol.toNat_lt.trans (by decide))

theorem toNat_bucketKey {rule : IpProPortRule} (h : Enabled rule) (t : PacketTuple) :
    (bucketKey rule t).toNat = t.dstIp.toNat * 2 ^ 16 + portProtocol t := by
  have hne : ¬ (rule.ipEnable = 0 ∧ rule.portEnable = 0 ∧ rule.protocolEnable = 0) := by
    rintro ⟨h1, h2, h3⟩
    rcases h with h | h | h
    · exact h h1
    · exact h h2
    · exact h h3
  have hip := t.dstIp.toNat_lt
  have hshift : (t.dstIp.toUInt64 <<< 16).toNat = t.dstIp.toNat <<< 16 := by
    rw [UInt64.toNat_shiftLeft]
    simp only [UInt32.toNat_toUInt64, Nat.shiftLeft_eq]
    exact Nat.mod_eq_of_lt (by show t.dstIp.toNat * 2 ^ 16 < 2 ^ 64; omega)
  rw [bucketKey, if_neg hne, UInt64.toNat_or, UInt64.toNat_or, hshift, Nat.or_assoc,
    UInt16.toNat_toUInt64, UInt8.toNat_toUInt64]
  exact (Nat.shiftLeft_add_eq_or_of_lt (portProtocol_lt t) _).symm.trans (by rw [Nat.shiftLeft_eq])

theorem bucketKey_eq_iff {rule : IpProPortRule} (h : Enabled rule) {t u : PacketTuple} :
    bucketKey rule t = bucketKey rule u ↔ t.dstIp = u.dstIp ∧ portProtocol t = portProtocol u := by
  have ht := portProtocol_lt t
  have hu := portProtocol_lt u
  rw [← UInt64.toNat_inj, toNat_bucketKey h, toNat_bucketKey h, ← UInt32.toNat_inj]
  omega

end Ksight.Wirefisher.Port

/-
  Ksight.Netwatcher.DnsCounts — the counts of DNS packets
  (src/net/netwatcher/bpf/udp.bpf.h: `process_dns_packet`, `__dns_rcv`, `__dns_send`;
  bpf/common.bpf.h: `dns_request_count`, `dns_response_count`; netwatcher.bpf.c: `udp_rcv`,
  `udp_send_skb`).

  A packet from or to port 53 is reported with the numbers of requests and responses between
  its two addresses so far. The addresses and ports are those of the packet's socket, zeros
  where it has none; so a packet whose socket has not been looked up yet is not reported. The
  counts are kept in 64 bits and reported in 32. Probes do not overlap.

  - `packets_counted_iff`: in every sequence of packets each report has the two numbers of the reports
    so far if and only if no pair is reported again after a packet of it that was the pair's
    first of its kind and came when 1024 other pairs had had one. Nothing leaves the maps.
-/

import Ksight.Lib.Tally
import Ksight.Netwatcher.FlowTimes

namespace Ksight.Netwatcher.DnsCounts

open Ksight.Lib
open Ksight.Netwatcher.Flow (UdpSock)

/-- `max_entries` of the two maps. -/
def maxPairs : Nat := 1024

structure Dns where
  saddr : UInt32
  daddr : UInt32
  deriving DecidableEq

/-- In network order. -/
structure DnsHeader where
  id : UInt16
  flags : UInt16
  qdcount : UInt16
  ancount : UInt16
  nscount : UInt16
  arcount : UInt16

/-- What is read of a packet: its socket, and what follows the UDP header. -/
structure Skb where
  sk : UdpSock
  header : DnsHeader
  data : List UInt8

structure DnsInformation where
  saddr : UInt32
  daddr : UInt32
  id : UInt16
  flags : UInt16
  qdcount : UInt16
  ancount : UInt16
  nscount : UInt16
  arcount : UInt16
  data : List UInt8
  rx : Int
  responseCount : Int32
  requestCount : Int32
  deriving DecidableEq

abbrev Counts := BoundedMap Dns UInt64 maxPairs

structure Maps where
  dnsRequestCount : Counts
  dnsResponseCount : Counts

/-- The command line: `-u` and `-D`. -/
structure Options where
  udpInfo : Bool
  dnsInfo : Bool

/-- The new count of the packet's own kind, and the map it is put in. -/
def countPacket (counts : Counts) (key : Dns) : UInt64 × Counts :=
  let count := match counts.lookup key with
    | some count => count + 1
    | none => 1
  (count, (counts.update key count).getD counts)

/-- The count of the other kind. -/
def keptCount (counts : Counts) (key : Dns) : UInt64 :=
  match counts.lookup key with
  | some count => count
  | none => 0

/-- A `u64` in an `int`. -/
def toInt (n : UInt64) : Int32 := n.toUInt32.toInt32

/-- `reserved` says whether `bpf_ringbuf_reserve` succeeds. -/
def processDnsPacket (skb : Option Skb) (rx : Int) (reserved : Bool) (m : Maps) : Option DnsInformation × Maps :=
  match skb with
  | none => (none, m)
  | some skb =>
    let key : Dns := ⟨skb.sk.rcvSaddr, skb.sk.daddr⟩
    if skb.sk.num ≠ 53 ∧ bswap16 skb.sk.dport ≠ 53 then (none, m)
    else if !reserved then (none, m)
    else
      let message (requestCount responseCount : UInt64) : DnsInformation := {
        saddr := if rx ≠ 0 then key.saddr else key.daddr
        daddr := if rx ≠ 0 then key.daddr else key.saddr
        id := bswap16 skb.header.id
        flags := bswap16 skb.header.flags
        qdcount := bswap16 skb.header.qdcount
        ancount := bswap16 skb.header.ancount
        nscount := bswap16 skb.header.nscount
        arcount := bswap16 skb.header.arcount
        data := skb.data
        rx := rx
        responseCount := toInt responseCount
        requestCount := toInt requestCount }
      if bswap16 skb.header.flags &&& 0x8000 ≠ 0 then
        let counted := countPacket m.dnsResponseCount key
        (some (message (keptCount m.dnsRequestCount key) counted.1), { m with dnsResponseCount := counted.2 })
      else
        let counted := countPacket m.dnsRequestCount key
        (some (message counted.1 (keptCount m.dnsResponseCount key)), { m with dnsRequestCount := counted.2 })

def dnsRcv (skb : Option Skb) (reserved : Bool) (m : Maps) : Option DnsInformation × Maps :=
  processDnsPacket skb 0 reserved m

def dnsSend (skb : Option Skb) (reserved : Bool) (m : Maps) : Option DnsInformation × Maps :=
  processDnsPacket skb 1 reserved m

/-- A packet at one of the two probes. -/
structure Call where
  skb : Option Skb
  sent : Bool
  reserved : Bool

/-- What `udp_rcv` and `udp_send_skb` do for DNS. -/
def probe (o : Options) (c : Call) (m : Maps) : Option DnsInformation × Maps :=
  if o.udpInfo then (none, m)
  else if o.dnsInfo then if c.sent then dnsSend c.skb c.reserved m else dnsRcv c.skb c.reserved m
  else (none, m)

def reports (o : Options) : List Call → Maps → List DnsInformation
  | [], _ => []
  | c :: calls, m => (probe o c m).1.toList ++ reports o calls (probe o c m).2

/-! ## The law -/

def DnsInformation.isResponse (e : DnsInformation) : Bool := e.flags &&& 0x8000 ≠ 0

/-- The two addresses as the socket has them. -/
def DnsInformation.pair (e : DnsInformation) : Dns :=
  if e.rx ≠ 0 then ⟨e.saddr, e.daddr⟩ else ⟨e.daddr, e.saddr⟩

/-- The pairs of the requests, or of the responses. -/
def pairsOf (response : Bool) (es : List DnsInformation) : List Dns :=
  (es.filter fun e => e.isResponse = response).map (·.pair)

/-- How many there have been between the addresses of `e`, `e` included. -/
def number (response : Bool) (es : List DnsInformation) (e : DnsInformation) : Int32 :=
  toInt (UInt64.ofNat ((pairsOf response (es ++ [e])).count e.pair))

def Counted (es : List DnsInformation) : Prop :=
  ∀ a e b, es = a ++ e :: b → e.requestCount = number false a e ∧ e.responseCount = number true a e

/-! ## The counts of a report -/

/-- The count of the kind `response` that a report states. -/
def DnsInformation.countOf (response : Bool) (e : DnsInformation) : Int32 :=
  if response then e.responseCount else e.requestCount

def Maps.countsOf (response : Bool) (m : Maps) : Counts := if response then m.dnsResponseCount else m.dnsRequestCount

theorem countPacket_eq (counts : Counts) (key : Dns) : countPacket counts key = Tally.bump counts key := by
  rcases h : counts.lookup key with _ | count <;> simp [countPacket, Tally.bump, h]

/-- A report with what it does to the maps: one kind is counted, the other one is read. -/
structure Reported (m n : Maps) (e : DnsInformation) : Prop where
  own : n.countsOf e.isResponse = (Tally.bump (m.countsOf e.isResponse) e.pair).2
  other : n.countsOf (!e.isResponse) = m.countsOf (!e.isResponse)
  ownCount : e.countOf e.isResponse = toInt (Tally.bump (m.countsOf e.isResponse) e.pair).1
  otherCount : e.countOf (!e.isResponse) = toInt (keptCount (m.countsOf (!e.isResponse)) e.pair)

theorem processDnsPacket_cases (skb : Option Skb) (rx : Int) (reserved : Bool) (m : Maps) :
    processDnsPacket skb rx reserved m = (none, m) ∨
      ∃ e n, processDnsPacket skb rx reserved m = (some e, n) ∧ Reported m n e := by
  rcases skb with _ | skb
  · exact .inl rfl
  · simp only [processDnsPacket]
    split
    · exact .inl rfl
    · split
      · exact .inl rfl
      · split
        · rename_i hflags
          refine .inr ⟨_, _, rfl, ?_⟩
          by_cases hrx : rx = 0 <;> constructor <;>
            simp [DnsInformation.isResponse, DnsInformation.pair, DnsInformation.countOf, Maps.countsOf, hflags, hrx,
              countPacket_eq]
        · rename_i hflags
          refine .inr ⟨_, _, rfl, ?_⟩
          by_cases hrx : rx = 0 <;> constructor <;>
            simp [DnsInformation.isResponse, DnsInformation.pair, DnsInformation.countOf, Maps.countsOf, hflags, hrx,
              countPacket_eq]

/-- A packet leaves the maps alone, or is reported. -/
theorem probe_cases (o : Options) (c : Call) (m : Maps) :
    probe o c m = (none, m) ∨ ∃ e n, probe o c m = (some e, n) ∧ Reported m n e := by
  unfold probe
  split
  · exact .inl rfl
  · split
    · split
      · exact processDnsPacket_cases c.skb 1 c.reserved m
      · exact processDnsPacket_cases c.skb 0 c.reserved m
    · exact .inl rfl

/-- The maps are the tallies of the reports, and each report has what they say. -/
structure Tallied (es : List DnsInformation) (m : Maps) : Prop where
  counts : ∀ response, m.countsOf response = Tally.tally maxPairs (pairsOf response es)

theorem pairsOf_append (response : Bool) (es fs : List DnsInformation) :
    pairsOf response (es ++ fs) = pairsOf response es ++ pairsOf response fs := by
  simp [pairsOf]

theorem pairsOf_own (e : DnsInformation) : pairsOf e.isResponse [e] = [e.pair] := by
  simp [pairsOf]

theorem pairsOf_other (e : DnsInformation) : pairsOf (!e.isResponse) [e] = [] := by
  simp [pairsOf]

theorem Tallied.snoc {es : List DnsInformation} {m n : Maps} {e : DnsInformation} (h : Tallied es m)
    (hr : Reported m n e) : Tallied (es ++ [e]) n := by
  refine ⟨fun response => ?_⟩
  rw [pairsOf_append]
  by_cases hk : response = e.isResponse
  · subst hk
    rw [pairsOf_own, Tally.tally_snoc, hr.own, h.counts]
  · obtain rfl : response = !e.isResponse := Bool.eq_not.mpr hk
    rw [pairsOf_other, List.append_nil, hr.other, h.counts]

/-- What a report states after others. -/
structure States (a : List DnsInformation) (e : DnsInformation) : Prop where
  own : e.countOf e.isResponse = toInt (Tally.bump (Tally.tally maxPairs (pairsOf e.isResponse a)) e.pair).1
  other : e.countOf (!e.isResponse) = toInt (keptCount (Tally.tally maxPairs (pairsOf (!e.isResponse) a)) e.pair)

theorem states_of_report (o : Options) (calls : List Call) {m : Maps} {es a b : List DnsInformation}
    {e : DnsInformation} (hm : Tallied es m) (h : reports o calls m = a ++ e :: b) : States (es ++ a) e := by
  induction calls generalizing m es a with
  | nil => simp [reports] at h
  | cons c calls ih =>
    rcases probe_cases o c m with hc | ⟨e', n, hc, hr⟩
    · simp only [reports, hc, Option.toList_none, List.nil_append] at h
      exact ih hm h
    · simp only [reports, hc, Option.toList_some, List.cons_append, List.nil_append] at h
      cases a with
      | nil =>
        cases h
        rw [List.append_nil]
        exact ⟨by rw [hr.ownCount, hm.counts], by rw [hr.otherCount, hm.counts]⟩
      | cons e₀ a =>
        simp only [List.cons_append, List.cons.injEq] at h
        obtain ⟨rfl, h⟩ := h
        have := ih (hm.snoc hr) h
        rwa [List.append_assoc] at this

/-! ## The exact condition -/

/-- The first report of a kind between two addresses finds room, or is the last of any kind
    between them. -/
def Kept (es : List DnsInformation) : Prop :=
  ∀ a e b, es = a ++ e :: b → e.pair ∉ pairsOf e.isResponse a →
    (pairsOf e.isResponse a).toFinset.card < maxPairs ∨ ∀ x ∈ b, x.pair ≠ e.pair

theorem split_first {es : List DnsInformation} {p : DnsInformation → Bool} (h : ∃ e ∈ es, p e = true) :
    ∃ a e b, es = a ++ e :: b ∧ p e = true ∧ ∀ x ∈ a, p x = false := by
  obtain ⟨e, he⟩ := Option.isSome_iff_exists.mp (List.find?_isSome.mpr h)
  obtain ⟨hp, a, b, rfl, ha⟩ := List.find?_eq_some_iff_append.mp he
  exact ⟨a, e, b, rfl, hp, fun x hx => by simpa using ha x hx⟩

theorem mem_pairsOf {response : Bool} {es : List DnsInformation} {pair : Dns} :
    pair ∈ pairsOf response es ↔ ∃ e ∈ es, e.isResponse = response ∧ e.pair = pair := by
  simp [pairsOf, and_assoc]

theorem number_own (a : List DnsInformation) (e : DnsInformation) :
    number e.isResponse a e = toInt (UInt64.ofNat ((pairsOf e.isResponse a).count e.pair + 1)) := by
  rw [number, pairsOf_append, pairsOf_own, List.count_append, List.count_singleton_self]

theorem number_other (a : List DnsInformation) (e : DnsInformation) :
    number (!e.isResponse) a e = toInt (UInt64.ofNat ((pairsOf (!e.isResponse) a).count e.pair)) := by
  rw [number, pairsOf_append, pairsOf_other, List.append_nil]

theorem counted_iff {es : List DnsInformation} :
    Counted es ↔ ∀ a e b, es = a ++ e :: b → e.countOf e.isResponse = number e.isResponse a e ∧
      e.countOf (!e.isResponse) = number (!e.isResponse) a e := by
  have hswap : ∀ a e, (e.requestCount = number false a e ∧ e.responseCount = number true a e) ↔
      e.countOf e.isResponse = number e.isResponse a e ∧ e.countOf (!e.isResponse) = number (!e.isResponse) a e := by
    intro a e
    cases e.isResponse
    · rfl
    · exact and_comm
  simp only [Counted, hswap]

/-- A pair that is reported again has been admitted. -/
theorem admitted_of_kept {es a b : List DnsInformation} {e : DnsInformation} (hk : Kept es) (hes : es = a ++ e :: b)
    {response : Bool} (hmem : e.pair ∈ pairsOf response a) :
    Tally.Admitted maxPairs (pairsOf response a) e.pair := by
  obtain ⟨f, hf, hresponse, hpair⟩ := mem_pairsOf.mp hmem
  obtain ⟨u, g, v, rfl, hg, hu⟩ := split_first (p := fun g => g.isResponse = response ∧ g.pair = e.pair)
    ⟨f, hf, by simp [hresponse, hpair]⟩
  obtain ⟨rfl, hgpair⟩ := of_decide_eq_true hg
  have hnew : g.pair ∉ pairsOf g.isResponse u := fun hmem => by
    obtain ⟨x, hx, hxr, hxp⟩ := mem_pairsOf.mp hmem
    exact of_decide_eq_false (hu x hx) ⟨hxr, hxp.trans hgpair⟩
  have hroom := (hk u g (v ++ e :: b) (by rw [hes]; simp) hnew).resolve_right fun hlast =>
    hlast e (by simp) hgpair.symm
  refine ⟨pairsOf g.isResponse u, pairsOf g.isResponse v, ?_, hgpair ▸ hnew, hroom⟩
  have hsplit : u ++ g :: v = u ++ ([g] ++ v) := rfl
  rw [hsplit, pairsOf_append, pairsOf_append, pairsOf_own, hgpair]
  rfl

theorem keptCount_admitted {ks : List Dns} {pair : Dns} (h : pair ∈ ks → Tally.Admitted maxPairs ks pair) :
    keptCount (Tally.tally maxPairs ks) pair = UInt64.ofNat (ks.count pair) := by
  have hcounted : Tally.Counted maxPairs ks _ := Tally.counted_tally ks
  by_cases hmem : pair ∈ ks
  · simp only [keptCount, hcounted.admitted pair (h hmem)]
  · simp only [keptCount, hcounted.refused pair fun hadm => hmem hadm.mem, List.count_eq_zero.mpr hmem]
    rfl

theorem bump_admitted {ks : List Dns} {pair : Dns} (h : pair ∈ ks → Tally.Admitted maxPairs ks pair) :
    (Tally.bump (Tally.tally maxPairs ks) pair).1 = UInt64.ofNat (ks.count pair + 1) := by
  have hcounted : Tally.Counted maxPairs ks _ := Tally.counted_tally ks
  by_cases hmem : pair ∈ ks
  · exact hcounted.bump (Tally.admitted_snoc.mpr (.inl (h hmem)))
  · rw [hcounted.bump_refused fun hadm => hmem hadm.mem, List.count_eq_zero.mpr hmem]
    rfl

/-- Each report has the numbers so far if and only if no pair is reported again that found no
    room. -/
theorem packets_counted_iff (o : Options) (calls : List Call) :
    Counted (reports o calls ⟨.empty, .empty⟩) ↔ Kept (reports o calls ⟨.empty, .empty⟩) := by
  have hempty : Tallied [] ⟨.empty, .empty⟩ := ⟨fun response => by cases response <;> rfl⟩
  have hstates : ∀ a e b, reports o calls ⟨.empty, .empty⟩ = a ++ e :: b → States a e :=
    fun a e b h => states_of_report o calls hempty h
  generalize reports o calls ⟨.empty, .empty⟩ = es at hstates
  rw [counted_iff]
  constructor
  · intro hc a e b hes hnew
    by_contra hcon
    obtain ⟨hfull, hagain⟩ := not_or.mp hcon
    simp only [not_forall, not_not] at hagain
    obtain ⟨y, hy, hypair⟩ := hagain
    obtain ⟨u, x, v, rfl, hx, hu⟩ := split_first (p := fun x => x.pair = e.pair) ⟨y, hy, by simp [hypair]⟩
    have hxpair : x.pair = e.pair := of_decide_eq_true hx
    have hsplit : es = (a ++ e :: u) ++ x :: v := by rw [hes]; simp
    have hu' : e.pair ∉ pairsOf e.isResponse u := fun hmem => by
      obtain ⟨z, hz, -, hzp⟩ := mem_pairsOf.mp hmem
      exact of_decide_eq_false (hu z hz) hzp
    have hks : pairsOf e.isResponse (a ++ e :: u) = pairsOf e.isResponse a ++ e.pair :: pairsOf e.isResponse u := by
      have : a ++ e :: u = a ++ ([e] ++ u) := rfl
      rw [this, pairsOf_append, pairsOf_append, pairsOf_own]
      rfl
    have hrefused : ¬ Tally.Admitted maxPairs (pairsOf e.isResponse (a ++ e :: u)) e.pair := by
      rw [hks]
      exact Tally.not_admitted_of_full hnew hfull
    have hone : (pairsOf e.isResponse (a ++ e :: u)).count e.pair = 1 := by
      rw [hks, List.count_append, List.count_cons_self, List.count_eq_zero.mpr hnew, List.count_eq_zero.mpr hu']
    have hcounted : Tally.Counted maxPairs (pairsOf e.isResponse (a ++ e :: u)) _ := Tally.counted_tally _
    have hs := hstates _ _ _ hsplit
    have hx := hc _ _ _ hsplit
    -- the next report between the addresses takes itself for the first, or sees none of the other kind
    by_cases hkind : x.isResponse = e.isResponse
    · have hown := hs.own.symm.trans hx.1
      rw [number_own, hkind, hxpair, hcounted.bump_refused hrefused, hone] at hown
      exact absurd hown (by decide)
    · have hnot : (!x.isResponse) = e.isResponse := Bool.not_eq.mpr hkind
      have hother := hs.other.symm.trans hx.2
      rw [number_other, hnot, hxpair, hone] at hother
      simp only [keptCount, hcounted.refused _ hrefused] at hother
      exact absurd hother (by decide)
  · intro hk a e b hes
    have hs := hstates a e b hes
    refine ⟨?_, ?_⟩
    · rw [hs.own, number_own, bump_admitted fun hmem => admitted_of_kept hk hes hmem]
    · rw [hs.other, number_other, keptCount_admitted fun hmem => admitted_of_kept hk hes hmem]

end Ksight.Netwatcher.DnsCounts

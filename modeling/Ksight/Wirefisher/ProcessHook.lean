/-
  Ksight.Wirefisher.ProcessHook — the programs of the process limiter
  (src/net/wirefisher/bpf/wirefisher.bpf.c: `security_socket_recvmsg`,
  `security_socket_sendmsg`, the second `netfilter_hook`; bpf/tc_process.bpf.h:
  `parse_sk_buff`, `save_sock`, `send_message`).

  The probes note which process uses a socket: `sock_map` by the socket itself, and
  `tuple_map`, for a UDP socket it receives on, by the address and port it is bound to. The
  hook finds the process of a packet in the first by the packet's socket and, for ingress
  UDP packets, which have none yet, in the second by the destination in its headers.

  `findProc_udp`: what the hook finds for such a packet is what `tuple_map` holds under
  the header's own bytes.
-/

import Ksight.Wirefisher.FlowRate
import Ksight.Wirefisher.RateLimit
import Ksight.Wirefisher.SkBuff

namespace Ksight.Wirefisher.Process

open Ksight.Lib

structure ProcInfo where
  pid : UInt32
  comm : List UInt8
  deriving DecidableEq

structure NetGroup where
  ip : UInt32
  port : UInt16
  protocol : UInt8
  deriving DecidableEq

structure ProcessRule where
  targetPid : UInt32
  rateBps : UInt64
  gress : UInt8
  timeScale : UInt32

structure MessageGet where
  instanceRateBps : UInt64
  rateBps : UInt64
  peakRateBps : UInt64
  smoothedRateBps : UInt64
  proc : ProcInfo
  timestamp : UInt64
  deriving DecidableEq

/-- The fields the probes read of a `struct sock` at `addr`. -/
structure Sock where
  addr : UInt64
  skProtocol : UInt16
  skcRcvSaddr : UInt32
  skcNum : UInt16

def maxProcs : Nat := 20000

structure Maps where
  sockMap : BoundedMap UInt64 ProcInfo maxProcs
  tupleMap : BoundedMap NetGroup ProcInfo maxProcs
  localIpMap : BoundedMap UInt32 UInt32 1

/-- The entries the two LRU maps drop if they are full. -/
structure Victims where
  sock : UInt64
  tuple : NetGroup

def saveSock (proc : ProcInfo) (v : Victims) (sk : Option Sock) (m : Maps) : Maps :=
  match sk with
  | none => m
  | some sk => { m with sockMap := m.sockMap.updateLru v.sock sk.addr proc }

/-- The key of a UDP socket; `daddr` is 0 for one bound to the wildcard. -/
def tupleKey (localIp : Option UInt32) (sk : Sock) : NetGroup :=
  let daddr := sk.skcRcvSaddr
  let daddr := if daddr = 0 then (localIp.map bswap32).getD daddr else daddr
  ⟨bswap32 daddr, bswap16 sk.skcNum, ipprotoUdp⟩

def securitySocketRecvmsg (proc : ProcInfo) (v : Victims) (sk : Option Sock) (m : Maps) : Maps :=
  let m := saveSock proc v sk m
  match sk with
  | none => m
  | some sk =>
    if sk.skProtocol ≠ ipprotoUdp.toUInt16 then m
    else { m with tupleMap := m.tupleMap.updateLru v.tuple (tupleKey (m.localIpMap.lookup 0) sk) proc }

def securitySocketSendmsg (proc : ProcInfo) (v : Victims) (sk : Option Sock) (m : Maps) : Maps :=
  saveSock proc v sk m

def parseSkBuff (skb : SkBuff) (direction : UInt8) : Option NetGroup :=
  if skb.len < 28 then none
  else
    match ipHdr skb with
    | none => none
    | some iph =>
      if iph.version ≠ 4 then none
      else
        let iphl := iph.ihl.toUInt32 * 4
        if iph.ihl < 5 then none
        else if skb.len ≤ iphl then none
        else if iph.protocol = ipprotoUdp then
          if skb.len < iphl + sizeofUdphdr then none
          else (udpHdr skb iphl).map fun udph =>
            if direction = egress then ⟨bswap32 iph.saddr, bswap16 udph.source, ipprotoUdp⟩
            else ⟨iph.daddr, udph.dest, ipprotoUdp⟩
        else if iph.protocol = ipprotoTcp then
          if skb.len < iphl + sizeofTcphdr then none
          else (tcpHdr skb iphl).map fun tcph =>
            if direction = egress then ⟨bswap32 iph.saddr, bswap16 tcph.source, ipprotoTcp⟩
            else ⟨bswap32 iph.daddr, bswap16 tcph.dest, ipprotoTcp⟩
        else none

/-- What the hook is called on; `sk` is the address of the packet's socket, 0 for none. -/
structure BpfNfCtx where
  hook : UInt32
  skb : SkBuff
  sk : UInt64

/-- The process the hook finds for a packet. -/
def findProc (ctx : BpfNfCtx) (m : Maps) : Option ProcInfo :=
  match parseSkBuff ctx.skb ingress with
  | none => none
  | some key =>
    if ctx.hook = nfInetLocalIn ∧ key.protocol = ipprotoUdp then m.tupleMap.lookup key
    else if ctx.sk = 0 then none
    else m.sockMap.lookup ctx.sk

/-- The clock as `netfilter_hook`, `update_flow_rate`, `send_message` and
    `rate_limit_check` read it, and whether the ring buffer has room for a message. -/
structure Readings where
  now : UInt64
  flowNow : UInt64
  sentNow : UInt64
  checkNow : UInt64
  reserved : Bool

def maxRules : Nat := 1024

def maxBuckets : Nat := 1024

structure FlowMaps where
  flowRateStats : FlowRateStats
  buckets : BoundedMap UInt32 RateBucket maxBuckets

/-- The rates of `info`; the process is left zero. -/
def messageOf (timestamp : UInt64) : Option FlowRateInfo → MessageGet
  | some info =>
    { instanceRateBps := info.instanceRateBps
      rateBps := info.rateBps
      peakRateBps := info.peakRateBps
      smoothedRateBps := info.smoothRateBps
      proc := ⟨0, List.replicate 16 0⟩
      timestamp }
  | none => ⟨0, 0, 0, 0, ⟨0, List.replicate 16 0⟩, timestamp⟩

/-- The bucket key is the pid: the map's keys have four bytes, and the low four of the
    64-bit variable come first. -/
def netfilterHook (rules : BoundedMap UInt32 ProcessRule maxRules) (procs : Maps) (ctx : BpfNfCtx)
    (r : Readings) (m : FlowMaps) : Verdict × Option MessageGet × FlowMaps :=
  match rules.lookup 0 with
  | none => (.accept, none, m)
  | some rule =>
    if rule.gress = egress ∧ ctx.hook ≠ nfInetLocalOut then (.accept, none, m)
    else if rule.gress = ingress ∧ ctx.hook ≠ nfInetLocalIn then (.accept, none, m)
    else
      match findProc ctx procs with
      | none => (.accept, none, m)
      | some proc =>
        if proc.pid = 0 then (.accept, none, m)
        else if rule.targetPid ≠ proc.pid then (.accept, none, m)
        else
          let (info, stats) := monitor r.now r.flowNow ctx.skb.len m.flowRateStats
          let mes := if r.reserved then some (messageOf r.sentNow info) else none
          let (verdict, buckets) :=
            rateLimitCheck r.checkNow ⟨rule.rateBps.toUInt32, rule.timeScale, ctx.skb.len⟩ proc.pid m.buckets
          (verdict, mes, ⟨stats, buckets⟩)

/-! ## Ingress UDP packets -/

/-- A UDP packet over IPv4 to that address and port, in host order. -/
def Addressed (skb : SkBuff) (ip : UInt32) (port : UInt16) : Prop :=
  ∃ iph udph, ipHdr skb = some iph ∧ iph.version = 4 ∧ 5 ≤ iph.ihl ∧ iph.protocol = ipprotoUdp ∧
    udpHdr skb (iph.ihl.toUInt32 * 4) = some udph ∧ iph.daddr = bswap32 ip ∧ udph.dest = bswap16 port

/-- The parser gives the destination as it is in the headers. -/
theorem parse_addressed {skb : SkBuff} {ip : UInt32} {port : UInt16} (h : Addressed skb ip port) :
    parseSkBuff skb ingress = some ⟨bswap32 ip, bswap16 port, ipprotoUdp⟩ := by
  obtain ⟨iph, udph, hip, hver, hihl, hproto, hudp, hd, hp⟩ := h
  have hlen := SkBuff.toNat_len skb
  have hihl' := UInt8.le_iff_toNat_le.mp hihl
  have hl := toNat_iphl iph.ihl
  have hshort : ¬ skb.len ≤ iph.ihl.toUInt32 * 4 := by
    intro h
    rw [udpHdr, if_pos h] at hudp
    cases hudp
  have hlong : iph.ihl.toNat * 4 + 8 ≤ skb.data.length := by
    rw [udpHdr, if_neg hshort, SkBuff.dynptrSlice] at hudp
    by_contra hn
    rw [if_neg (by rw [hl]; exact hn)] at hudp
    cases hudp
  have h28 : ¬ skb.len < 28 := by
    intro h
    have := UInt32.lt_iff_toNat_lt.mp h
    rw [hlen] at this
    have : skb.data.length < 28 := this
    have : 5 ≤ iph.ihl.toNat := hihl'
    omega
  have hudplen : ¬ skb.len < iph.ihl.toUInt32 * 4 + sizeofUdphdr := by
    intro h
    have := UInt32.lt_iff_toNat_lt.mp h
    have hi := iph.ihl.toNat_lt
    rw [hlen, UInt32.toNat_add, hl, show sizeofUdphdr.toNat = 8 from rfl, Nat.mod_eq_of_lt (by omega)] at this
    omega
  unfold parseSkBuff
  rw [if_neg h28, hip]
  dsimp only
  rw [if_neg (not_not.mpr hver), if_neg (UInt8.not_lt.mpr hihl), if_neg hshort, if_pos hproto,
    if_neg hudplen, hudp, Option.map_some, if_neg (by decide), hd, hp]

theorem findProc_udp {skb : SkBuff} {ip : UInt32} {port : UInt16} (h : Addressed skb ip port) (sk : UInt64)
    (m : Maps) :
    findProc ⟨nfInetLocalIn, skb, sk⟩ m = m.tupleMap.lookup ⟨bswap32 ip, bswap16 port, ipprotoUdp⟩ := by
  rw [findProc, parse_addressed h]
  exact if_pos ⟨rfl, rfl⟩

end Ksight.Wirefisher.Process

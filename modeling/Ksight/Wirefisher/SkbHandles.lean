/-
  Ksight.Wirefisher.SkbHandles — the handlers of the interface and the cgroup limiter
  (src/net/wirefisher/bpf/tc_eth.bpf.h: `parse_ethernet_header`, `tc_handle`;
  tc_cgroup.bpf.h: `cgroup_handle`; `send_message`, the same in both).

  Both are called with the direction of their hook. The interface limiter has one bucket
  for each direction, the cgroup limiter one for each cgroup. The verdicts are those of
  `rate_limit_check`, which each returns as its hook wants it.
-/

import Ksight.Wirefisher.FlowRate
import Ksight.Wirefisher.RateLimit

namespace Ksight.Wirefisher.Skb

open Ksight.Lib

/-- The clock as the handler, `update_flow_rate`, `send_message` and `rate_limit_check` read
    it, and whether the ring buffer has room for a message. -/
structure Readings where
  now : UInt64
  flowNow : UInt64
  sentNow : UInt64
  checkNow : UInt64
  reserved : Bool

structure MessageGet where
  instanceRateBps : UInt64
  rateBps : UInt64
  peakRateBps : UInt64
  smoothedRateBps : UInt64
  timestamp : UInt64
  deriving DecidableEq

/-- The rates of `info`; both rates are the average one. -/
def messageOf (timestamp : UInt64) : Option FlowRateInfo → MessageGet
  | some info => ⟨info.rateBps, info.rateBps, info.peakRateBps, info.smoothRateBps, timestamp⟩
  | none => ⟨0, 0, 0, 0, timestamp⟩

def sendMessage (r : Readings) (mes : MessageGet) : Option MessageGet :=
  if r.reserved then some mes else none

end Ksight.Wirefisher.Skb

/-! ## The interface limiter -/

namespace Ksight.Wirefisher.Eth

open Ksight.Lib
open Ksight.Wirefisher.Skb (Readings MessageGet messageOf sendMessage)

structure EthRule where
  rateBps : UInt64
  timeScale : UInt32
  gress : UInt8

/-- The fields read of a `struct __sk_buff`: its length and where its data are. -/
structure SkBuff where
  len : UInt32
  data : UInt64
  dataEnd : UInt64

def maxRules : Nat := 1

def maxBuckets : Nat := 2

/-- The map's keys have one byte, the first one of the 64-bit variable. -/
structure Maps where
  flowRateStats : FlowRateStats
  buckets : BoundedMap UInt8 RateBucket maxBuckets

def Maps.empty : Maps := ⟨.empty, .empty⟩

/-- The addresses and the type it reads are used nowhere. -/
def parseEthernetHeader (ctx : SkBuff) : Bool := !decide (ctx.dataEnd < ctx.data + 14)

def tcHandle (rules : BoundedMap UInt32 EthRule maxRules) (ctx : SkBuff) (gress : UInt8) (r : Readings)
    (m : Maps) : Verdict × Option MessageGet × Maps :=
  match rules.lookup 0 with
  | none => (.accept, none, m)
  | some rule =>
    if rule.gress ≠ gress then (.accept, none, m)
    else if ctx.dataEnd = 0 then (.accept, none, m)
    else if ctx.data = 0 then (.accept, none, m)
    else if !parseEthernetHeader ctx then (.accept, none, m)
    else
      let (info, stats) := monitor r.now r.flowNow ctx.len m.flowRateStats
      let mes := sendMessage r (messageOf r.sentNow info)
      let (verdict, buckets) :=
        rateLimitCheck r.checkNow ⟨rule.rateBps.toUInt32, rule.timeScale, ctx.len⟩ gress m.buckets
      (verdict, mes, ⟨stats, buckets⟩)

end Ksight.Wirefisher.Eth

/-! ## The cgroup limiter -/

namespace Ksight.Wirefisher.Cgroup

open Ksight.Lib
open Ksight.Wirefisher.Skb (Readings MessageGet messageOf sendMessage)

structure CgroupRule where
  rateBps : UInt64
  gress : UInt8
  timeScale : UInt32

def maxRules : Nat := 1024

def maxBuckets : Nat := 1024

structure Maps where
  flowRateStats : FlowRateStats
  buckets : BoundedMap UInt64 RateBucket maxBuckets

def Maps.empty : Maps := ⟨.empty, .empty⟩

/-- `len` is the length of the packet, `cgroupId` what `bpf_get_current_cgroup_id` returns. -/
def cgroupHandle (rules : BoundedMap UInt32 CgroupRule maxRules) (len : UInt32) (cgroupId : UInt64)
    (gress : UInt8) (r : Readings) (m : Maps) : Verdict × Option MessageGet × Maps :=
  match rules.lookup 0 with
  | none => (.accept, none, m)
  | some rule =>
    if rule.gress ≠ gress then (.accept, none, m)
    else
      let (info, stats) := monitor r.now r.flowNow len m.flowRateStats
      let mes := sendMessage r (messageOf r.sentNow info)
      let (verdict, buckets) :=
        rateLimitCheck r.checkNow ⟨rule.rateBps.toUInt32, rule.timeScale, len⟩ cgroupId m.buckets
      (verdict, mes, ⟨stats, buckets⟩)

end Ksight.Wirefisher.Cgroup

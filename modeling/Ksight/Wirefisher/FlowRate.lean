/-
  Ksight.Wirefisher.FlowRate — the rates of the monitored traffic
  (src/net/wirefisher/include/common.h: `struct flow_rate_info`, `update_flow_rate`).

  The handlers keep one record under one key, create it with their first packet and
  report its rates with every packet. A division by 0 gives 0, as it does in a BPF
  program.
-/

import Mathlib.Data.UInt
import Ksight.Lib.BoundedMap

namespace Ksight.Wirefisher

open Ksight.Lib

structure FlowRateInfo where
  windowStartNs : UInt64
  lastNs : UInt64
  totalBytes : UInt64
  packetBytes : UInt64
  rateBps : UInt64
  instanceRateBps : UInt64
  peakRateBps : UInt64
  smoothRateBps : UInt64
  deriving DecidableEq

/-- The record a handler creates for its first packet. -/
def newFlow (now : UInt64) (len : UInt32) : FlowRateInfo where
  windowStartNs := now
  lastNs := now
  totalBytes := len.toUInt64
  packetBytes := len.toUInt64
  rateBps := 0
  instanceRateBps := 0
  peakRateBps := 0
  smoothRateBps := 0

def updateFlowRate (now : UInt64) (f : FlowRateInfo) (packetSize : UInt32) : FlowRateInfo :=
  let total := f.totalBytes + packetSize.toUInt64
  let f := { f with totalBytes := total, rateBps := total * 1000000000 / (now - f.windowStartNs) }
  if now - f.lastNs ≥ 1000000000 then
    let inst := f.packetBytes * 1000000000 / (now - f.lastNs)
    { f with
      instanceRateBps := inst
      peakRateBps := if inst > f.peakRateBps then inst else f.peakRateBps
      smoothRateBps :=
        if f.smoothRateBps ≠ 0 then f.smoothRateBps - (f.smoothRateBps >>> 3) + (inst >>> 3) else inst
      lastNs := now
      packetBytes := packetSize.toUInt64 }
  else { f with packetBytes := f.packetBytes + packetSize.toUInt64 }

/-- An update adds to the total and computes the average rate; it closes the window, or adds
    to it. -/
theorem updateFlowRate_spec (now : UInt64) (f : FlowRateInfo) (packetSize : UInt32) :
    let g := updateFlowRate now f packetSize
    g.windowStartNs = f.windowStartNs ∧ g.totalBytes = f.totalBytes + packetSize.toUInt64 ∧
      g.rateBps = (f.totalBytes + packetSize.toUInt64) * 1000000000 / (now - f.windowStartNs) ∧
      (now - f.lastNs ≥ 1000000000 ∧ g.lastNs = now ∧ g.packetBytes = packetSize.toUInt64 ∧
          g.instanceRateBps = f.packetBytes * 1000000000 / (now - f.lastNs) ∨
        ¬ now - f.lastNs ≥ 1000000000 ∧ g.lastNs = f.lastNs ∧
          g.packetBytes = f.packetBytes + packetSize.toUInt64 ∧ g.instanceRateBps = f.instanceRateBps) := by
  unfold updateFlowRate
  dsimp only
  split
  · rename_i hlong
    exact ⟨rfl, rfl, rfl, .inl ⟨hlong, rfl, rfl, rfl⟩⟩
  · rename_i hshort
    exact ⟨rfl, rfl, rfl, .inr ⟨hshort, rfl, rfl, rfl⟩⟩

/-- `flow_rate_stats`, which has one entry. -/
abbrev FlowRateStats := BoundedMap UInt32 FlowRateInfo 1

def flowKey : UInt32 := 1

/-- The record of the handlers is created if need be and then updated; the two clock
    readings are the handler's and the one of `update_flow_rate`. -/
def monitor (now flowNow : UInt64) (len : UInt32) (stats : FlowRateStats) :
    Option FlowRateInfo × FlowRateStats :=
  let stats :=
    match stats.lookup flowKey with
    | some _ => stats
    | none => (stats.update flowKey (newFlow now len)).getD stats
  let stats := stats.modify flowKey fun f => updateFlowRate flowNow f len
  (stats.lookup flowKey, stats)

end Ksight.Wirefisher

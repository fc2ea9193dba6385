/-
  Ksight.Wirefisher.FourLimiters — the four limiters on one packet sequence
  (src/net/wirefisher/bpf/tc_eth.bpf.h: `tc_handle`, tc_cgroup.bpf.h: `cgroup_handle`,
  tc_port.bpf.h: `netfilter_handle`, wirefisher.bpf.c: `netfilter_hook`).

  The same packets, with the same lengths and clock readings, go through each limiter; all
  of them are the rule's, and they share a bucket. Each handler is then the one program
  `limitStep` (`run_eq` of each limiter), whose record it reports.

  The law (`Agree`): the limiters give the same verdicts and report the same rates, of which
  the instantaneous one is that of the last closed window (`windowRates`). Only the process
  limiter reports that one: the three others report the average rate in its place.

  - `agree_iff`: the law holds of a sequence if and only if its lengths and times, cut into
    seconds, are `Steady`: after each packet, all the bytes over all the time and those of the
    last full second over its own are as many whole bytes a second, and in the first second none.
  - A second packet that comes later, but within the first second, is enough to break the
    condition (`not_steady_of_soon`), and so is a second that ends (`a_closed_window_differs`).
-/

import Ksight.Lib.Outputs
import Ksight.Wirefisher.PortHandle
import Ksight.Wirefisher.ProcessHook
import Ksight.Wirefisher.SkbHandles

namespace Ksight.Wirefisher.FourLimiters

open Ksight.Lib

/-- A packet's length, and the clock where its handler reads it. -/
structure Packet where
  len : UInt32
  now : UInt64
  flowNow : UInt64
  sentNow : UInt64
  checkNow : UInt64

structure Rates where
  instanceRateBps : UInt64
  rateBps : UInt64
  peakRateBps : UInt64
  smoothedRateBps : UInt64
  deriving DecidableEq

/-- The verdict on a packet and the rates reported with it. -/
abbrev Output := Verdict × Option Rates

/-! ## The rates of a sequence -/

/-- The rate of the last closed window after each packet: the window open since `start` has
    `bytes`, the one before it had `rate`. -/
def windows : UInt64 → UInt64 → UInt64 → List Packet → List UInt64
  | _, _, _, [] => []
  | start, bytes, rate, p :: ps =>
    if p.flowNow - start ≥ 1000000000 then
      let rate := bytes * 1000000000 / (p.flowNow - start)
      rate :: windows p.flowNow p.len.toUInt64 rate ps
    else rate :: windows start (bytes + p.len.toUInt64) rate ps

def windowRates : List Packet → List UInt64
  | [] => []
  | p :: ps => windows p.now p.len.toUInt64 0 (p :: ps)

/-! ## The lengths and times of a sequence -/

/-- Bytes, and when they are counted. -/
structure Arrival where
  time : UInt64
  len : UInt32

/-- The first packet is counted twice: when the record is made, and with its update. -/
def arrivals : List Packet → List Arrival
  | [] => []
  | p :: ps => ⟨p.now, p.len⟩ :: (p :: ps).map fun q => ⟨q.flowNow, q.len⟩

def bytesOf (as : List Arrival) : Nat := (as.map fun a => a.len.toNat).sum

/-- The arrivals within a second of the first of them. -/
structure Second where
  start : UInt64
  bytes : Nat

def arrive (seconds : List Second) (a : Arrival) : List Second :=
  match seconds with
  | [] => [⟨a.time, a.len.toNat⟩]
  | w :: ws =>
    if a.time - w.start < 1000000000 then ⟨w.start, w.bytes + a.len.toNat⟩ :: ws
    else ⟨a.time, a.len.toNat⟩ :: w :: ws

/-- The arrivals cut into seconds, the newest, which is still open, first. -/
def seconds (as : List Arrival) : List Second := as.foldl arrive []

/-- So many bytes in so many nanoseconds are `r` bytes a second, rounded down; in no time they are
    none. The product with 10^9 has 64 bits. -/
def Rate (bytes : Nat) (time : UInt64) (r : Nat) : Prop :=
  if time = 0 then r = 0
  else r * time.toNat ≤ bytes * 1000000000 % 2 ^ 64 ∧ bytes * 1000000000 % 2 ^ 64 < (r + 1) * time.toNat

/-- `total` bytes in `elapsed` nanoseconds, and the bytes of the last full second in the time to the
    next one's start, are as many whole bytes a second; in the first second they are none. -/
def SameRate (total : Nat) (elapsed : UInt64) : List Second → Prop
  | w :: v :: _ => ∃ r, Rate total elapsed r ∧ Rate v.bytes (w.start - v.start) r
  | _ => Rate total elapsed 0

/-- After the last of the packets. -/
def Level : List Packet → Prop
  | [] => True
  | p :: ps =>
    SameRate (bytesOf (arrivals (p :: ps))) (((p :: ps).getLast (List.cons_ne_nil p ps)).flowNow - p.now)
      (seconds (arrivals (p :: ps)))

/-- The condition: after each packet. -/
def Steady (ps : List Packet) : Prop := ∀ qs, qs <+: ps → Level qs

theorem rate_iff {bytes : Nat} {time : UInt64} {r : Nat} :
    Rate bytes time r ↔ bytes * 1000000000 % 2 ^ 64 / time.toNat = r := by
  unfold Rate
  split
  · rename_i h
    simp [h, eq_comm]
  · rename_i h
    have hpos : 0 < time.toNat := Nat.pos_of_ne_zero fun h0 => h (UInt64.toNat_inj.mp h0)
    rw [Nat.div_eq_iff hpos, Nat.add_mul]
    omega

theorem toNat_rate (bytes : Nat) (time : UInt64) :
    (UInt64.ofNat bytes * 1000000000 / time).toNat = bytes * 1000000000 % 2 ^ 64 / time.toNat := by
  have hg : (1000000000 : UInt64).toNat = 1000000000 := rfl
  rw [UInt64.toNat_div, UInt64.toNat_mul, UInt64.toNat_ofNat', hg, Nat.mod_mul_mod]

theorem exists_rate_iff {bytes bytes' : Nat} {time time' : UInt64} :
    (∃ r, Rate bytes time r ∧ Rate bytes' time' r) ↔
      UInt64.ofNat bytes * 1000000000 / time = UInt64.ofNat bytes' * 1000000000 / time' := by
  simp only [rate_iff, ← UInt64.toNat_inj, toNat_rate]
  exact ⟨fun ⟨r, h, h'⟩ => h.trans h'.symm, fun h => ⟨_, h, rfl⟩⟩

theorem rate_zero_iff {bytes : Nat} {time : UInt64} :
    Rate bytes time 0 ↔ UInt64.ofNat bytes * 1000000000 / time = 0 := by
  rw [rate_iff, ← UInt64.toNat_inj, toNat_rate]
  rfl

instance (bytes : Nat) (time : UInt64) (r : Nat) : Decidable (Rate bytes time r) :=
  decidable_of_iff _ rate_iff.symm

instance (total : Nat) (elapsed : UInt64) : ∀ ws, Decidable (SameRate total elapsed ws)
  | _ :: _ :: _ => decidable_of_iff _ exists_rate_iff.symm
  | [_] | [] => inferInstanceAs (Decidable (Rate total elapsed 0))

instance : ∀ ps, Decidable (Level ps)
  | [] => .isTrue trivial
  | _ :: _ => inferInstanceAs (Decidable (SameRate ..))

instance (ps : List Packet) : Decidable (Steady ps) :=
  have : Decidable (∀ qs ∈ ps.inits, Level qs) := List.decidableBAll _ _
  decidable_of_iff (∀ qs ∈ ps.inits, Level qs) (by simp only [List.mem_inits]; rfl)

/-! ## The one program -/

variable (rateBps : UInt64) (timeScale : UInt32)

def rateOf (p : Packet) : RateLimit := ⟨rateBps.toUInt32, timeScale, p.len⟩

/-- The record and the bucket of the rule, `none` before the first packet. -/
abbrev LimitState := Option FlowRateInfo × Option RateBucket

def limitStep (p : Packet) (s : LimitState) : (Verdict × FlowRateInfo) × LimitState :=
  let info := updateFlowRate p.flowNow (s.1.getD (newFlow p.now p.len)) p.len
  let rate := rateOf rateBps timeScale p
  let r := charge p.checkNow rate (s.2.getD ⟨p.checkNow, maxBucket rate.rateBps rate.timeScale⟩)
  ((r.1, info), (some info, some r.2))

def limits (ps : List Packet) : List (Verdict × FlowRateInfo) :=
  outputs (limitStep rateBps timeScale) ps (none, none)

/-- The output of a limiter that reports `inst` as the instantaneous rate. -/
def emit (inst : FlowRateInfo → UInt64) (x : Verdict × FlowRateInfo) : Output :=
  (x.1, some ⟨inst x.2, x.2.rateBps, x.2.peakRateBps, x.2.smoothRateBps⟩)

variable {rateBps timeScale}

theorem outputs_windows (ps : List Packet) (f : FlowRateInfo) (b : Option RateBucket) :
    (outputs (limitStep rateBps timeScale) ps (some f, b)).map (·.2.instanceRateBps) =
      windows f.lastNs f.packetBytes f.instanceRateBps ps := by
  induction ps generalizing f b with
  | nil => rfl
  | cons p ps ih =>
    simp only [outputs, limitStep, Option.getD_some, List.map_cons, windows]
    rw [ih]
    obtain ⟨-, -, -, ⟨hlong, hlast, hpacket, hinst⟩ | ⟨hshort, hlast, hpacket, hinst⟩⟩ :=
      updateFlowRate_spec p.flowNow f p.len
    · rw [if_pos hlong, hlast, hpacket, hinst]
    · rw [if_neg hshort, hlast, hpacket, hinst]

theorem limits_first (p : Packet) (ps : List Packet) :
    limits rateBps timeScale (p :: ps) =
      outputs (limitStep rateBps timeScale) (p :: ps) (some (newFlow p.now p.len), none) := rfl

variable (rateBps timeScale) in
theorem limits_window (ps : List Packet) :
    (limits rateBps timeScale ps).map (·.2.instanceRateBps) = windowRates ps := by
  cases ps with
  | nil => rfl
  | cons p ps => rw [limits_first, outputs_windows]; rfl

/-! ## What has arrived -/

/-- What the record tells of the arrivals. -/
structure Counts (f : FlowRateInfo) (as : List Arrival) : Prop where
  start : ∀ a ∈ as.head?, f.windowStartNs = a.time
  total : f.totalBytes = .ofNat (bytesOf as)
  second : ∃ w ws, seconds as = w :: ws ∧ f.lastNs = w.start ∧ f.packetBytes = .ofNat w.bytes ∧
    f.instanceRateBps = ws.head?.elim 0 fun v => .ofNat v.bytes * 1000000000 / (w.start - v.start)

theorem seconds_concat (as : List Arrival) (a : Arrival) : seconds (as ++ [a]) = arrive (seconds as) a := by
  simp [seconds]

theorem bytesOf_concat (as : List Arrival) (a : Arrival) : bytesOf (as ++ [a]) = bytesOf as + a.len.toNat := by
  simp [bytesOf]

theorem counts_newFlow (now : UInt64) (len : UInt32) : Counts (newFlow now len) [⟨now, len⟩] where
  start a ha := by cases ha; rfl
  total := by simp [newFlow, bytesOf]
  second := ⟨⟨now, len.toNat⟩, [], rfl, rfl, (UInt64.ofNat_uInt32ToNat len).symm, rfl⟩

/-- An update counts one more arrival. -/
theorem Counts.update {f : FlowRateInfo} {a : Arrival} {as : List Arrival} (h : Counts f (a :: as)) (now : UInt64)
    (len : UInt32) :
    Counts (updateFlowRate now f len) (a :: as ++ [⟨now, len⟩]) ∧
      (updateFlowRate now f len).rateBps =
        .ofNat (bytesOf (a :: as ++ [⟨now, len⟩])) * 1000000000 / (now - a.time) := by
  obtain ⟨hstart, htotal, hrate, hwindow⟩ := updateFlowRate_spec now f len
  have hbytes : f.totalBytes + len.toUInt64 = .ofNat (bytesOf (a :: as ++ [⟨now, len⟩])) := by
    rw [bytesOf_concat, UInt64.ofNat_add, h.total, UInt64.ofNat_uInt32ToNat]
  have hfirst : f.windowStartNs = a.time := h.start a rfl
  refine ⟨⟨fun b hb => ?_, htotal.trans hbytes, ?_⟩, by rw [hrate, hbytes, hfirst]⟩
  · cases hb
    exact hstart.trans hfirst
  · obtain ⟨w, ws, hw, hlast, hpacket, hinst⟩ := h.second
    rw [seconds_concat, hw, arrive]
    rw [hlast, hpacket] at hwindow
    rcases hwindow with ⟨hlong, hlast', hpacket', hinst'⟩ | ⟨hshort, hlast', hpacket', hinst'⟩
    · refine ⟨⟨now, len.toNat⟩, w :: ws, if_neg (UInt64.not_lt.mpr hlong), hlast', ?_, hinst'⟩
      rw [hpacket', UInt64.ofNat_uInt32ToNat]
    · refine ⟨⟨w.start, w.bytes + len.toNat⟩, ws, if_pos (UInt64.not_le.mp hshort), hlast', ?_, ?_⟩
      · rw [hpacket', UInt64.ofNat_add, UInt64.ofNat_uInt32ToNat]
      · rw [hinst', hinst]

/-- With one more packet. -/
theorem Counts.concat {f : FlowRateInfo} {ps : List Packet} (h : Counts f (arrivals ps)) (hne : ps ≠ []) (p : Packet) :
    Counts (updateFlowRate p.flowNow f p.len) (arrivals (ps ++ [p])) ∧
      (updateFlowRate p.flowNow f p.len).rateBps = .ofNat (bytesOf (arrivals (ps ++ [p]))) * 1000000000 /
        (p.flowNow - ((ps ++ [p]).head (List.concat_ne_nil p ps)).now) := by
  cases ps with
  | nil => exact absurd rfl hne
  | cons q ps =>
    have harrivals : arrivals (q :: ps ++ [p]) = arrivals (q :: ps) ++ [⟨p.flowNow, p.len⟩] := by simp [arrivals]
    rw [harrivals]
    exact h.update p.flowNow p.len

/-- The state after the packets. -/
def stateAfter (rateBps : UInt64) (timeScale : UInt32) (ps : List Packet) : LimitState :=
  ps.foldl (fun s p => (limitStep rateBps timeScale p s).2) (none, none)

theorem stateAfter_concat (ps : List Packet) (p : Packet) :
    (stateAfter rateBps timeScale (ps ++ [p])).1 =
      some (limitStep rateBps timeScale p (stateAfter rateBps timeScale ps)).1.2 := by
  rw [stateAfter, List.foldl_append]
  rfl

theorem limits_concat (ps : List Packet) (p : Packet) :
    limits rateBps timeScale (ps ++ [p]) =
      limits rateBps timeScale ps ++ [(limitStep rateBps timeScale p (stateAfter rateBps timeScale ps)).1] :=
  outputs_concat ..

variable (rateBps timeScale) in
/-- What is reported with the last of the packets counts all that has arrived. -/
theorem counts_concat (ps : List Packet) (p : Packet) :
    let f := (limitStep rateBps timeScale p (stateAfter rateBps timeScale ps)).1.2
    Counts f (arrivals (ps ++ [p])) ∧
      f.rateBps = .ofNat (bytesOf (arrivals (ps ++ [p]))) * 1000000000 /
        (p.flowNow - ((ps ++ [p]).head (List.concat_ne_nil p ps)).now) := by
  induction ps using List.reverseRecOn generalizing p with
  | nil => exact (counts_newFlow p.now p.len).update p.flowNow p.len
  | append_singleton ps q ih =>
    have hinfo : (limitStep rateBps timeScale p (stateAfter rateBps timeScale (ps ++ [q]))).1.2 =
        updateFlowRate p.flowNow (limitStep rateBps timeScale q (stateAfter rateBps timeScale ps)).1.2 p.len := by
      rw [limitStep, stateAfter_concat]
      rfl
    rw [hinfo]
    exact (ih q).1.concat (List.concat_ne_nil q ps) p

theorem level_concat {ps : List Packet} {p : Packet} {f : FlowRateInfo} (h : Counts f (arrivals (ps ++ [p])))
    (hrate : f.rateBps = .ofNat (bytesOf (arrivals (ps ++ [p]))) * 1000000000 /
      (p.flowNow - ((ps ++ [p]).head (List.concat_ne_nil p ps)).now)) :
    Level (ps ++ [p]) ↔ f.rateBps = f.instanceRateBps := by
  have hlevel : Level (ps ++ [p]) ↔ SameRate (bytesOf (arrivals (ps ++ [p])))
      (p.flowNow - ((ps ++ [p]).head (List.concat_ne_nil p ps)).now) (seconds (arrivals (ps ++ [p]))) := by
    cases ps with
    | nil => rfl
    | cons q qs => simp [Level]
  obtain ⟨w, ws, hw, -, -, hinst⟩ := h.second
  rw [hlevel, hw, hrate, hinst]
  cases ws with
  | nil => exact rate_zero_iff
  | cons v ws => exact exists_rate_iff

variable (rateBps timeScale) in
/-- The two rates are the same with each packet if and only if the condition is met. -/
theorem limits_steady_iff (ps : List Packet) :
    (limits rateBps timeScale ps).map (·.2.rateBps) = (limits rateBps timeScale ps).map (·.2.instanceRateBps) ↔
      Steady ps := by
  induction ps using List.reverseRecOn with
  | nil => exact iff_of_true rfl fun qs hqs => by cases List.prefix_nil.mp hqs; trivial
  | append_singleton ps p ih =>
    obtain ⟨hcounts, hrate⟩ := counts_concat rateBps timeScale ps p
    have hsteady : Steady (ps ++ [p]) ↔ Steady ps ∧ Level (ps ++ [p]) := by
      simp only [Steady, List.prefix_concat_iff, or_imp, forall_and, forall_eq]
      exact and_comm
    rw [hsteady, ← ih, level_concat hcounts hrate, limits_concat, List.map_append, List.map_append]
    simp

/-- A second packet that comes later, but within the first second, is enough to break it. -/
theorem not_steady_of_soon {p q : Packet} (ps : List Packet) (hlen : 0 < p.len) (hsoon : p.flowNow - p.now < 1000000000)
    (hlater : q.flowNow ≠ p.now) (hq : q.flowNow - p.now < 1000000000) : ¬ Steady (p :: q :: ps) := by
  intro h
  have hlevel := h [p, q] (List.prefix_append [p, q] ps)
  have hseconds : seconds (arrivals [p, q]) = [⟨p.now, p.len.toNat + p.len.toNat + q.len.toNat⟩] := by
    simp [seconds, arrivals, arrive, hsoon, hq]
  have hbytes : bytesOf (arrivals [p, q]) = p.len.toNat + (p.len.toNat + q.len.toNat) := by
    simp [bytesOf, arrivals]
  have htime : q.flowNow - p.now ≠ 0 := fun h0 => hlater ((UInt64.sub_eq_iff_eq_add.mp h0).trans (UInt64.zero_add _))
  have hrate : Rate (bytesOf (arrivals [p, q])) (q.flowNow - p.now) 0 := by
    have hsame : SameRate (bytesOf (arrivals [p, q])) (q.flowNow - p.now) (seconds (arrivals [p, q])) := hlevel
    rwa [hseconds] at hsame
  have hp := p.len.toNat_lt
  have hq' := q.len.toNat_lt
  -- three packets' bytes do not wrap around
  have hwrap : (p.len.toNat + (p.len.toNat + q.len.toNat)) * 1000000000 < 2 ^ 64 := by omega
  rw [Rate, if_neg htime, hbytes, Nat.mod_eq_of_lt hwrap] at hrate
  have hshort : (q.flowNow - p.now).toNat < 1000000000 := UInt64.lt_iff_toNat_lt.mp hq
  have hpos : 0 < p.len.toNat := UInt32.lt_iff_toNat_lt.mp hlen
  omega

/-! ## A limiter's maps -/

section
variable {κ : Type} [DecidableEq κ] {cap : Nat}

/-- The maps hold the record and the bucket of the rule, and nothing else. -/
structure Tracks (key : κ) (stats : FlowRateStats) (buckets : BoundedMap κ RateBucket cap) (s : LimitState) :
    Prop where
  flow : stats.lookup flowKey = s.1
  oneFlow : ∀ k, k ≠ flowKey → stats.lookup k = none
  bucket : buckets.lookup key = s.2
  oneBucket : ∀ k, k ≠ key → buckets.lookup k = none

theorem tracks_empty (key : κ) :
    Tracks key .empty (.empty : BoundedMap κ RateBucket cap) (none, none) where
  flow := BoundedMap.lookup_empty _
  oneFlow _ _ := BoundedMap.lookup_empty _
  bucket := BoundedMap.lookup_empty _
  oneBucket _ _ := BoundedMap.lookup_empty _

/-- A map without any other key has room for this one. -/
theorem hasRoom_of_only {ν : Type} {m : BoundedMap κ ν cap} {key : κ} (hcap : 0 < cap)
    (h : ∀ k, k ≠ key → m.lookup k = none) : m.HasRoom key := by
  by_cases hk : key ∈ m.keys
  · exact .inl hk
  · right
    rw [show m.keys = ∅ from ?_]
    · exact hcap
    · refine Finset.eq_empty_of_forall_notMem fun k hmem => ?_
      obtain ⟨v, hv⟩ := BoundedMap.mem_keys.mp hmem
      by_cases e : k = key
      · exact hk (e ▸ hmem)
      · rw [h k e] at hv
        cases hv

theorem monitor_eq (now flowNow : UInt64) (len : UInt32) {stats : FlowRateStats}
    (h : ∀ k, k ≠ flowKey → stats.lookup k = none) :
    (monitor now flowNow len stats).1 =
        some (updateFlowRate flowNow ((stats.lookup flowKey).getD (newFlow now len)) len) ∧
      (monitor now flowNow len stats).2.lookup flowKey =
        some (updateFlowRate flowNow ((stats.lookup flowKey).getD (newFlow now len)) len) ∧
      ∀ k, k ≠ flowKey → (monitor now flowNow len stats).2.lookup k = none := by
  unfold monitor
  rcases hl : stats.lookup flowKey with _ | f
  · obtain ⟨n, hn, hlook⟩ := BoundedMap.update_room (hasRoom_of_only Nat.one_pos h) (newFlow now len)
    simp only [hn, Option.getD_some, BoundedMap.lookup_modify_self, hlook, if_true, Option.map_some,
      Option.getD_none, true_and]
    intro k hk
    rw [BoundedMap.lookup_modify_ne _ _ hk, hlook, if_neg hk]
    exact h k hk
  · simp only [BoundedMap.lookup_modify_self, hl, Option.map_some, Option.getD_some, true_and]
    intro k hk
    rw [BoundedMap.lookup_modify_ne _ _ hk]
    exact h k hk

variable (rateBps timeScale) in
/-- What the handlers make of a packet of the rule is `limitStep`. -/
theorem limit_tracks {key : κ} {stats : FlowRateStats} {buckets : BoundedMap κ RateBucket cap} {s : LimitState}
    (hcap : 0 < cap) (h : Tracks key stats buckets s) (p : Packet) :
    (rateLimitCheck p.checkNow (rateOf rateBps timeScale p) key buckets).1 =
        (limitStep rateBps timeScale p s).1.1 ∧
      (monitor p.now p.flowNow p.len stats).1 = some (limitStep rateBps timeScale p s).1.2 ∧
      Tracks key (monitor p.now p.flowNow p.len stats).2
        (rateLimitCheck p.checkNow (rateOf rateBps timeScale p) key buckets).2
        (limitStep rateBps timeScale p s).2 := by
  obtain ⟨hinfo, hflow, hone⟩ := monitor_eq p.now p.flowNow p.len h.oneFlow
  obtain ⟨hv, hb, hne⟩ := rateLimitCheck_room p.checkNow (rateOf rateBps timeScale p)
    (hasRoom_of_only hcap h.oneBucket)
  rw [h.flow] at hinfo hflow
  simp only [found, h.bucket] at hv hb
  exact ⟨hv, hinfo, hflow, hone, hb, fun k hk => (hne k hk).trans (h.oneBucket k hk)⟩

end

/-! ## The four limiters at work -/

/-- The packet as the interface limiter is given it. -/
structure EthCarries (p : Packet) (i : Eth.SkBuff × Skb.Readings) : Prop where
  len : i.1.len = p.len
  dataEnd : i.1.dataEnd ≠ 0
  data : i.1.data ≠ 0
  header : Eth.parseEthernetHeader i.1 = true
  clock : i.2 = ⟨p.now, p.flowNow, p.sentNow, p.checkNow, true⟩

structure CgroupCarries (p : Packet) (i : UInt32 × Skb.Readings) : Prop where
  len : i.1 = p.len
  clock : i.2 = ⟨p.now, p.flowNow, p.sentNow, p.checkNow, true⟩

/-- The packet as the port limiter is given it: the rule is about it, and its key is `key`. -/
structure PortCarries (rule : Port.IpProPortRule) (key : UInt64) (p : Packet)
    (i : Port.BpfNfCtx × Port.Readings) : Prop where
  len : i.1.skb.len = p.len
  matched : ∃ t, Port.ruleMatch rule i.1 = some t ∧ Port.bucketKey rule t = key
  clock : i.2 = ⟨p.now, p.flowNow, p.sentNow, p.checkNow, true⟩

/-- The packet as the process limiter is given it: the hook finds the rule's process. -/
structure ProcessCarries (rule : Process.ProcessRule) (p : Packet)
    (i : Process.Maps × Process.BpfNfCtx × Process.Readings) : Prop where
  len : i.2.1.skb.len = p.len
  hook : ¬ (rule.gress = egress ∧ i.2.1.hook ≠ nfInetLocalOut) ∧
    ¬ (rule.gress = ingress ∧ i.2.1.hook ≠ nfInetLocalIn)
  found : ∃ proc, Process.findProc i.2.1 i.1 = some proc ∧ proc.pid = rule.targetPid
  clock : i.2.2 = ⟨p.now, p.flowNow, p.sentNow, p.checkNow, true⟩

/-- The packets `ps` of one direction, through the interface limiter. -/
structure EthRun (rateBps : UInt64) (timeScale : UInt32) (ps : List Packet) where
  rules : BoundedMap UInt32 Eth.EthRule Eth.maxRules
  gress : UInt8
  configured : rules.lookup 0 = some ⟨rateBps, timeScale, gress⟩
  inputs : List (Eth.SkBuff × Skb.Readings)
  carried : List.Forall₂ EthCarries ps inputs

/-- The packets `ps` of one cgroup, through the cgroup limiter. -/
structure CgroupRun (rateBps : UInt64) (timeScale : UInt32) (ps : List Packet) where
  rules : BoundedMap UInt32 Cgroup.CgroupRule Cgroup.maxRules
  gress : UInt8
  cgroupId : UInt64
  configured : rules.lookup 0 = some ⟨rateBps, gress, timeScale⟩
  inputs : List (UInt32 × Skb.Readings)
  carried : List.Forall₂ CgroupCarries ps inputs

/-- The packets `ps` of one bucket key, through the port limiter. -/
structure PortRun (rateBps : UInt64) (timeScale : UInt32) (ps : List Packet) where
  rules : BoundedMap UInt32 Port.IpProPortRule Port.maxRules
  rule : Port.IpProPortRule
  key : UInt64
  configured : rules.lookup 0 = some { rule with rateBps, timeScale }
  inputs : List (Port.BpfNfCtx × Port.Readings)
  carried : List.Forall₂ (PortCarries { rule with rateBps, timeScale } key) ps inputs

/-- The packets `ps` of one process, through the process limiter. -/
structure ProcessRun (rateBps : UInt64) (timeScale : UInt32) (ps : List Packet) where
  rules : BoundedMap UInt32 Process.ProcessRule Process.maxRules
  pid : UInt32
  gress : UInt8
  nonzero : pid ≠ 0
  configured : rules.lookup 0 = some ⟨pid, rateBps, gress, timeScale⟩
  inputs : List (Process.Maps × Process.BpfNfCtx × Process.Readings)
  carried : List.Forall₂ (ProcessCarries ⟨pid, rateBps, gress, timeScale⟩) ps inputs

variable {ps : List Packet}

def EthRun.step (e : EthRun rateBps timeScale ps) (i : Eth.SkBuff × Skb.Readings) (m : Eth.Maps) :
    Output × Eth.Maps :=
  let (verdict, mes, m) := Eth.tcHandle e.rules i.1 e.gress i.2 m
  ((verdict, mes.map fun mes =>
    ⟨mes.instanceRateBps, mes.rateBps, mes.peakRateBps, mes.smoothedRateBps⟩), m)

def EthRun.run (e : EthRun rateBps timeScale ps) : List Output := outputs e.step e.inputs .empty

def CgroupRun.step (c : CgroupRun rateBps timeScale ps) (i : UInt32 × Skb.Readings) (m : Cgroup.Maps) :
    Output × Cgroup.Maps :=
  let (verdict, mes, m) := Cgroup.cgroupHandle c.rules i.1 c.cgroupId c.gress i.2 m
  ((verdict, mes.map fun mes =>
    ⟨mes.instanceRateBps, mes.rateBps, mes.peakRateBps, mes.smoothedRateBps⟩), m)

def CgroupRun.run (c : CgroupRun rateBps timeScale ps) : List Output := outputs c.step c.inputs .empty

def PortRun.step (t : PortRun rateBps timeScale ps) (i : Port.BpfNfCtx × Port.Readings) (m : Port.Maps) :
    Output × Port.Maps :=
  let (verdict, mes, m) := Port.netfilterHandle t.rules i.1 i.2 m
  ((verdict, mes.map fun mes =>
    ⟨mes.instanceRateBps, mes.rateBps, mes.peakRateBps, mes.smoothedRateBps⟩), m)

def PortRun.run (t : PortRun rateBps timeScale ps) : List Output := outputs t.step t.inputs ⟨.empty, .empty⟩

def ProcessRun.step (q : ProcessRun rateBps timeScale ps)
    (i : Process.Maps × Process.BpfNfCtx × Process.Readings) (m : Process.FlowMaps) :
    Output × Process.FlowMaps :=
  let (verdict, mes, m) := Process.netfilterHook q.rules i.1 i.2.1 i.2.2 m
  ((verdict, mes.map fun mes =>
    ⟨mes.instanceRateBps, mes.rateBps, mes.peakRateBps, mes.smoothedRateBps⟩), m)

def ProcessRun.run (q : ProcessRun rateBps timeScale ps) : List Output :=
  outputs q.step q.inputs ⟨.empty, .empty⟩

theorem EthRun.run_eq (e : EthRun rateBps timeScale ps) :
    e.run = (limits rateBps timeScale ps).map (emit FlowRateInfo.rateBps) := by
  refine outputs_map (S := fun s m => Tracks e.gress m.flowRateStats m.buckets s) ?_ e.carried
    (tracks_empty e.gress)
  rintro p ⟨ctx, r⟩ s m h hs
  obtain ⟨hlen, hend, hdata, hheader, hclock⟩ := h
  dsimp only at hlen hend hdata hheader hclock
  subst hclock
  obtain ⟨hv, hinfo, ht⟩ := limit_tracks rateBps timeScale (by decide) hs p
  simp only [EthRun.step, Eth.tcHandle, e.configured, hend, hdata, hheader, hlen, Skb.sendMessage, hinfo,
    ne_eq, not_true_eq_false, if_false, Bool.not_true, Bool.false_eq_true, if_true]
  exact ⟨Prod.ext hv rfl, ht⟩

theorem CgroupRun.run_eq (c : CgroupRun rateBps timeScale ps) :
    c.run = (limits rateBps timeScale ps).map (emit FlowRateInfo.rateBps) := by
  refine outputs_map (S := fun s m => Tracks c.cgroupId m.flowRateStats m.buckets s) ?_ c.carried
    (tracks_empty c.cgroupId)
  rintro p ⟨len, r⟩ s m h hs
  obtain ⟨hlen, hclock⟩ := h
  dsimp only at hlen hclock
  subst hlen hclock
  obtain ⟨hv, hinfo, ht⟩ := limit_tracks rateBps timeScale (by decide) hs p
  simp only [CgroupRun.step, Cgroup.cgroupHandle, c.configured, Skb.sendMessage, hinfo,
    ne_eq, not_true_eq_false, if_false, if_true]
  exact ⟨Prod.ext hv rfl, ht⟩

theorem PortRun.run_eq (t : PortRun rateBps timeScale ps) :
    t.run = (limits rateBps timeScale ps).map (emit FlowRateInfo.rateBps) := by
  refine outputs_map (S := fun s m => Tracks t.key m.flowRateStats m.buckets s) ?_ t.carried
    (tracks_empty t.key)
  rintro p ⟨ctx, r⟩ s m h hs
  obtain ⟨hlen, ⟨tuple, hm, hkey⟩, hclock⟩ := h
  dsimp only at hlen hm hclock
  subst hclock
  obtain ⟨hv, hinfo, ht⟩ := limit_tracks rateBps timeScale (by decide) hs p
  simp only [PortRun.step, Port.netfilterHandle_match t.configured hm, Port.sendMessage, Port.rateLimit,
    hlen, hkey, hinfo, if_true]
  exact ⟨Prod.ext hv rfl, ht⟩

theorem ProcessRun.run_eq (q : ProcessRun rateBps timeScale ps) :
    q.run = (limits rateBps timeScale ps).map (emit FlowRateInfo.instanceRateBps) := by
  refine outputs_map (S := fun s m => Tracks q.pid m.flowRateStats m.buckets s) ?_ q.carried
    (tracks_empty q.pid)
  rintro p ⟨procs, ctx, r⟩ s m h hs
  obtain ⟨hlen, ⟨hout, hin⟩, ⟨proc, hproc, hpid⟩, hclock⟩ := h
  dsimp only at hlen hout hin hproc hpid hclock
  subst hclock
  obtain ⟨hv, hinfo, ht⟩ := limit_tracks rateBps timeScale (by decide) hs p
  simp only [ProcessRun.step, Process.netfilterHook, q.configured, if_neg hout, if_neg hin, hproc, hpid,
    q.nonzero, hlen, hinfo, ne_eq, not_true_eq_false, if_false, if_true]
  exact ⟨Prod.ext hv rfl, ht⟩

/-! ## The law -/

/-- The four limiters give the same outputs, and the instantaneous rate is the last closed
    window's. -/
structure Agree (ps : List Packet) (eth cgroup port process : List Output) : Prop where
  eth : eth = process
  cgroup : cgroup = process
  port : port = process
  window : process.map (·.2.map Rates.instanceRateBps) = (windowRates ps).map some

theorem emit_eq_iff (xs : List (Verdict × FlowRateInfo)) :
    xs.map (emit FlowRateInfo.rateBps) = xs.map (emit FlowRateInfo.instanceRateBps) ↔
      xs.map (·.2.rateBps) = xs.map (·.2.instanceRateBps) := by
  simp [emit]

theorem agree_iff (e : EthRun rateBps timeScale ps) (c : CgroupRun rateBps timeScale ps)
    (t : PortRun rateBps timeScale ps) (q : ProcessRun rateBps timeScale ps) :
    Agree ps e.run c.run t.run q.run ↔ Steady ps := by
  rw [e.run_eq, c.run_eq, t.run_eq, q.run_eq, ← limits_steady_iff rateBps timeScale, ← emit_eq_iff]
  refine ⟨Agree.eth, fun h => ⟨h, h, h, ?_⟩⟩
  rw [← limits_window rateBps timeScale, List.map_map, List.map_map]
  rfl

/-! ## One bucket of 112 bytes a second -/

/-- 28 bytes, with the clock at `t` throughout. -/
def packetAt (t : UInt64) : Packet := ⟨28, t, t, t, t⟩

theorem forall₂_packetAt {ι : Type} {C : Packet → ι → Prop} {input : UInt64 → ι}
    (h : ∀ t, C (packetAt t) (input t)) (ts : List UInt64) : List.Forall₂ C (ts.map packetAt) (ts.map input) :=
  List.forall₂_map_left_iff.mpr (List.forall₂_map_right_iff.mpr (List.forall₂_same.mpr fun t _ => h t))

def oneRule {ν : Type} {cap : Nat} (rule : ν) : BoundedMap UInt32 ν cap :=
  (BoundedMap.empty.update 0 rule).getD .empty

def ethRun (ts : List UInt64) : EthRun 112 1 (ts.map packetAt) where
  rules := oneRule ⟨112, 1, ingress⟩
  gress := ingress
  configured := rfl
  inputs := ts.map fun t => (⟨28, 1, 29⟩, ⟨t, t, t, t, true⟩)
  carried := forall₂_packetAt
    (fun _ => ⟨rfl, (by decide : (29 : UInt64) ≠ 0), (by decide : (1 : UInt64) ≠ 0), rfl, rfl⟩) ts

def cgroupRun (ts : List UInt64) : CgroupRun 112 1 (ts.map packetAt) where
  rules := oneRule ⟨112, ingress, 1⟩
  gress := ingress
  cgroupId := 1
  configured := rfl
  inputs := ts.map fun t => (28, ⟨t, t, t, t, true⟩)
  carried := forall₂_packetAt (fun _ => ⟨rfl, rfl⟩) ts

/-- The rule for the ingress of 10.0.0.2. -/
def ingressRule : Port.IpProPortRule where
  targetIp := 0x0a000002
  targetPort := 0
  targetProtocol := 0
  rateBps := 112
  timeScale := 1
  gress := 0
  ipEnable := 1
  portEnable := 0
  protocolEnable := 0

def datagram : SkBuff := packet 0x0a000002 53 ipprotoUdp 28

theorem datagram_matches :
    Port.ruleMatch ingressRule ⟨nfInetLocalIn, datagram⟩ = some ⟨0, 0x0a000002, 0, 53, ipprotoUdp⟩ := by
  decide +kernel

def portRun (ts : List UInt64) : PortRun 112 1 (ts.map packetAt) where
  rules := oneRule ingressRule
  rule := ingressRule
  key := Port.bucketKey ingressRule ⟨0, 0x0a000002, 0, 53, ipprotoUdp⟩
  configured := rfl
  inputs := ts.map fun t => (⟨nfInetLocalIn, datagram⟩, ⟨t, t, t, t, true⟩)
  carried := forall₂_packetAt (fun _ => ⟨rfl, ⟨_, datagram_matches, rfl⟩, rfl⟩) ts

/-- Process 7 receives on 10.0.0.2:53. -/
def receiver : Process.Maps where
  sockMap := .empty
  tupleMap := (BoundedMap.empty.update ⟨bswap32 0x0a000002, bswap16 53, ipprotoUdp⟩ ⟨7, []⟩).getD .empty
  localIpMap := .empty

theorem datagram_found : Process.findProc ⟨nfInetLocalIn, datagram, 0⟩ receiver = some ⟨7, []⟩ := by
  decide +kernel

def processRun (ts : List UInt64) : ProcessRun 112 1 (ts.map packetAt) where
  rules := oneRule ⟨7, 112, ingress, 1⟩
  pid := 7
  gress := ingress
  nonzero := by decide
  configured := rfl
  inputs := ts.map fun t => (receiver, ⟨nfInetLocalIn, datagram, 0⟩, ⟨t, t, t, t, true⟩)
  carried := forall₂_packetAt (fun _ =>
    ⟨rfl, ⟨fun h => absurd h.1 (by decide), fun h => h.2 rfl⟩, ⟨_, datagram_found, rfl⟩, rfl⟩) ts

/-- Five packets, the third and the fourth within a second, all at 1 byte a second. -/
def slow : List UInt64 := [0, 50000000000, 70000000000, 70500000000, 110000000000]

theorem slow_packets_agree :
    Agree (slow.map packetAt) (ethRun slow).run (cgroupRun slow).run (portRun slow).run (processRun slow).run ∧
      windowRates (slow.map packetAt) = [0, 1, 1, 1, 1] :=
  ⟨(agree_iff (ethRun slow) (cgroupRun slow) (portRun slow) (processRun slow)).mpr (by decide +kernel),
    by decide +kernel⟩

/-- A second later the window closes at 56 bytes a second, the first packet counted twice,
    and the average is 84. -/
theorem a_closed_window_differs :
    ¬ ∀ rateBps timeScale ps (e : EthRun rateBps timeScale ps) (c : CgroupRun rateBps timeScale ps)
      (t : PortRun rateBps timeScale ps) (q : ProcessRun rateBps timeScale ps),
      Agree ps e.run c.run t.run q.run := by
  intro h
  have heth := (h _ _ _ (ethRun [0, 1000000000]) (cgroupRun _) (portRun _) (processRun _)).eth
  exact absurd heth (by decide +kernel)

end Ksight.Wirefisher.FourLimiters

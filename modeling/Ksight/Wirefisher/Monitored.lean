/-
  Ksight.Wirefisher.Monitored — the record of the monitored traffic along a run of a
  handler (src/net/wirefisher/include/common.h: `update_flow_rate`, and the place each of
  tc_eth.bpf.h: `tc_handle`, tc_cgroup.bpf.h: `cgroup_handle`, tc_port.bpf.h:
  `netfilter_handle`, wirefisher.bpf.c: `netfilter_hook` calls it from).

  A limiter is given any inputs. Those that its rule is about are the packets of its flow
  (`Limiter.packet`); every other one leaves the record alone (`Limiter.record_step`).

  (1) Bytes (`Conserved`): the total is the sum of the lengths of the packets so far, and each
      byte of it is in one window. The first packet creates the record with its length and
      is then added to it, so `conserved_iff`: the law holds if and only if that length is
      0 and the sum fits 64 bits. One packet breaks it (`the_first_packet_counts_twice`).
  (2) Rates (`Exact`): each update divides by a time that is not 0, and its rates are the
      rounded quotients of the numbers themselves. `exact_iff`: along a run with a clock
      that never goes back this holds if and only if each update reads a later time than
      the one the record was created at, and the total times 10^9 fits 64 bits (`Fits`).
      A first packet without a tick between its two readings is enough to break it
      (`no_tick_divides_by_zero`), and so is a total of 18.4 GB.
-/

import Ksight.Lib.Run
import Ksight.Wirefisher.FourLimiters

namespace Ksight.Wirefisher.Monitored

open Ksight.Lib
open Ksight.Wirefisher.FourLimiters (monitor_eq)

/-! ## The four handlers -/

/-- A handler and its rules. -/
inductive Limiter
  | eth (rules : BoundedMap UInt32 Eth.EthRule Eth.maxRules)
  | cgroup (rules : BoundedMap UInt32 Cgroup.CgroupRule Cgroup.maxRules)
  | port (rules : BoundedMap UInt32 Port.IpProPortRule Port.maxRules)
  | process (rules : BoundedMap UInt32 Process.ProcessRule Process.maxRules)

namespace Limiter

/-- What a handler is called on; the interface and the cgroup limiter with a direction. -/
abbrev Input : Limiter → Type
  | .eth _ => Eth.SkBuff × UInt8 × Skb.Readings
  | .cgroup _ => UInt32 × UInt64 × UInt8 × Skb.Readings
  | .port _ => Port.BpfNfCtx × Port.Readings
  | .process _ => Process.Maps × Process.BpfNfCtx × Process.Readings

abbrev Maps : Limiter → Type
  | .eth _ => Eth.Maps
  | .cgroup _ => Cgroup.Maps
  | .port _ => Port.Maps
  | .process _ => Process.FlowMaps

def start : (l : Limiter) → l.Maps
  | .eth _ => .empty
  | .cgroup _ => .empty
  | .port _ => ⟨.empty, .empty⟩
  | .process _ => ⟨.empty, .empty⟩

def stats : (l : Limiter) → l.Maps → FlowRateStats
  | .eth _, m => m.flowRateStats
  | .cgroup _, m => m.flowRateStats
  | .port _, m => m.flowRateStats
  | .process _, m => m.flowRateStats

/-- The maps after a call. -/
def step : (l : Limiter) → l.Input → l.Maps → l.Maps
  | .eth rules, (ctx, gress, r), m => (Eth.tcHandle rules ctx gress r m).2.2
  | .cgroup rules, (len, cgroupId, gress, r), m => (Cgroup.cgroupHandle rules len cgroupId gress r m).2.2
  | .port rules, (ctx, r), m => (Port.netfilterHandle rules ctx r m).2.2
  | .process rules, (procs, ctx, r), m => (Process.netfilterHook rules procs ctx r m).2.2

/-- The packet of the flow that a call is about. -/
def packet : (l : Limiter) → l.Input → Option FourLimiters.Packet
  | .eth rules, (ctx, gress, r) =>
    match rules.lookup 0 with
    | none => none
    | some rule =>
      if rule.gress = gress ∧ ctx.dataEnd ≠ 0 ∧ ctx.data ≠ 0 ∧ Eth.parseEthernetHeader ctx = true then
        some ⟨ctx.len, r.now, r.flowNow, r.sentNow, r.checkNow⟩
      else none
  | .cgroup rules, (len, _, gress, r) =>
    match rules.lookup 0 with
    | none => none
    | some rule => if rule.gress = gress then some ⟨len, r.now, r.flowNow, r.sentNow, r.checkNow⟩ else none
  | .port rules, (ctx, r) =>
    match rules.lookup 0 with
    | none => none
    | some rule =>
      (Port.ruleMatch rule ctx).map fun _ => ⟨ctx.skb.len, r.now, r.flowNow, r.sentNow, r.checkNow⟩
  | .process rules, (procs, ctx, r) =>
    match rules.lookup 0 with
    | none => none
    | some rule =>
      if rule.gress = egress ∧ ctx.hook ≠ nfInetLocalOut ∨ rule.gress = ingress ∧ ctx.hook ≠ nfInetLocalIn then
        none
      else
        ((Process.findProc ctx procs).filter fun proc => proc.pid ≠ 0 ∧ rule.targetPid = proc.pid).map
          fun _ => ⟨ctx.skb.len, r.now, r.flowNow, r.sentNow, r.checkNow⟩

/-- A call monitors its packet, if it has one. -/
theorem stats_step (l : Limiter) (i : l.Input) (m : l.Maps) :
    l.stats (l.step i m) =
      match l.packet i with
      | none => l.stats m
      | some p => (monitor p.now p.flowNow p.len (l.stats m)).2 := by
  cases l with
  | eth rules =>
    obtain ⟨ctx, gress, r⟩ := i
    simp only [stats, step, packet, Eth.tcHandle]
    rcases hr : rules.lookup 0 with _ | rule
    · rfl
    · dsimp only
      by_cases h : rule.gress = gress ∧ ctx.dataEnd ≠ 0 ∧ ctx.data ≠ 0 ∧ Eth.parseEthernetHeader ctx = true
      · obtain ⟨hgress, hend, hdata, hheader⟩ := h
        simp [hgress, hend, hdata, hheader]
      · -- one of the tests fails, and the maps are returned as they are
        rw [if_neg h]
        split; · rfl
        rename_i hgress
        split; · rfl
        rename_i hend
        split; · rfl
        rename_i hdata
        split; · rfl
        rename_i hheader
        exact absurd ⟨not_not.mp hgress, hend, hdata, by simpa using hheader⟩ h
  | cgroup rules =>
    obtain ⟨len, cgroupId, gress, r⟩ := i
    simp only [stats, step, packet, Cgroup.cgroupHandle]
    rcases hr : rules.lookup 0 with _ | rule
    · rfl
    · by_cases hgress : rule.gress = gress
      · simp [hgress]
      · simp [hgress]
  | port rules =>
    obtain ⟨ctx, r⟩ := i
    simp only [stats, step, packet]
    rcases hr : rules.lookup 0 with _ | rule
    · simp [Port.netfilterHandle, hr]
    · dsimp only
      rcases hm : Port.ruleMatch rule ctx with _ | t
      · rw [Port.netfilterHandle_pass hr hm]
        rfl
      · rw [Port.netfilterHandle_match hr hm]
        rfl
  | process rules =>
    obtain ⟨procs, ctx, r⟩ := i
    simp only [stats, step, packet, Process.netfilterHook]
    rcases hr : rules.lookup 0 with _ | rule
    · rfl
    · by_cases hout : rule.gress = egress ∧ ctx.hook ≠ nfInetLocalOut
      · simp [hout]
      by_cases hin : rule.gress = ingress ∧ ctx.hook ≠ nfInetLocalIn
      · simp [hin]
      dsimp only
      rw [if_neg hout, if_neg hin, if_neg (not_or.mpr ⟨hout, hin⟩)]
      rcases hf : Process.findProc ctx procs with _ | proc
      · rfl
      · by_cases hzero : proc.pid = 0
        · simp [hzero, Option.filter]
        · by_cases htarget : rule.targetPid = proc.pid
          · simp [hzero, htarget, Option.filter]
          · simp [hzero, htarget, Option.filter]

/-- The record, `none` before the first packet. -/
def record (l : Limiter) (m : l.Maps) : Option FlowRateInfo := (l.stats m).lookup flowKey

/-- The maps hold no other record. -/
def Clean (l : Limiter) (m : l.Maps) : Prop := ∀ k, k ≠ flowKey → (l.stats m).lookup k = none

theorem stats_start (l : Limiter) : l.stats l.start = .empty := by cases l <;> rfl

theorem clean_start (l : Limiter) : l.Clean l.start := fun k _ => by
  rw [l.stats_start]
  exact BoundedMap.lookup_empty k

theorem record_start (l : Limiter) : l.record l.start = none := by
  rw [record, l.stats_start]
  exact BoundedMap.lookup_empty _

end Limiter

/-- The record `update_flow_rate` is called on. -/
def before (p : FourLimiters.Packet) (s : Option FlowRateInfo) : FlowRateInfo := s.getD (newFlow p.now p.len)

/-- What a call makes of the record. -/
theorem Limiter.record_step {l : Limiter} {m : l.Maps} (h : l.Clean m) (i : l.Input) :
    l.Clean (l.step i m) ∧
      l.record (l.step i m) =
        match l.packet i with
        | none => l.record m
        | some p => some (updateFlowRate p.flowNow (before p (l.record m)) p.len) := by
  unfold Clean record
  rw [l.stats_step]
  rcases l.packet i with _ | p
  · exact ⟨h, rfl⟩
  · obtain ⟨-, hrec, hclean⟩ := monitor_eq p.now p.flowNow p.len h
    exact ⟨hclean, hrec⟩

/-! ## Bytes -/

/-- The byte count of the window that an update closes, if it closes one. -/
def closedBy (now : UInt64) (f : FlowRateInfo) : List UInt64 :=
  if now - f.lastNs ≥ 1000000000 then [f.packetBytes] else []

/-- The maps, and the byte counts of the windows closed so far. -/
structure Books (l : Limiter) where
  maps : l.Maps
  closed : List UInt64

variable {l : Limiter}

def Books.call (i : l.Input) (s : Books l) : Books l where
  maps := l.step i s.maps
  closed := s.closed ++ (l.packet i).elim [] fun p => closedBy p.flowNow (before p (l.record s.maps))

variable (l) in
def books (is : List l.Input) : Books l := is.foldl (fun s i => s.call i) ⟨l.start, []⟩

variable (l) in
/-- The lengths of the packets of the flow. -/
def lengths (is : List l.Input) : List Nat := (is.filterMap l.packet).map (·.len.toNat)

def sumOf (ns : List UInt64) : Nat := (ns.map UInt64.toNat).sum

/-- The law, after the last of the calls. -/
structure Conserved (l : Limiter) (is : List l.Input) : Prop where
  total : ∀ f ∈ l.record (books l is).maps, f.totalBytes.toNat = (lengths l is).sum
  windows : ∀ f ∈ l.record (books l is).maps,
    sumOf (books l is).closed + f.packetBytes.toNat = f.totalBytes.toNat

/-- What the record and the closed windows hold after packets of `lens`: `none` before the first
    packet, which is counted twice. -/
def Holds (lens : List Nat) (closed : List UInt64) : Option FlowRateInfo → Prop
  | none => lens = [] ∧ closed = []
  | some f => ∃ n ns, lens = n :: ns ∧ n < 2 ^ 32 ∧ f.totalBytes.toNat = (n + lens.sum) % 2 ^ 64 ∧
      (n + lens.sum < 2 ^ 64 → sumOf closed + f.packetBytes.toNat = n + lens.sum)

@[simp] theorem sumOf_append (ms ns : List UInt64) : sumOf (ms ++ ns) = sumOf ms + sumOf ns := by
  simp [sumOf]

/-- An update adds the length to the total, and to the window it leaves open. -/
theorem updateFlowRate_bytes (now : UInt64) (f : FlowRateInfo) (len : UInt32) :
    (updateFlowRate now f len).totalBytes.toNat = (f.totalBytes.toNat + len.toNat) % 2 ^ 64 ∧
      (f.packetBytes.toNat + len.toNat < 2 ^ 64 →
        sumOf (closedBy now f) + (updateFlowRate now f len).packetBytes.toNat =
          f.packetBytes.toNat + len.toNat) := by
  obtain ⟨-, htotal, -, hwindow⟩ := updateFlowRate_spec now f len
  refine ⟨by rw [htotal, UInt64.toNat_add, UInt32.toNat_toUInt64], fun h => ?_⟩
  rcases hwindow with ⟨hlong, -, hpacket, -⟩ | ⟨hshort, -, hpacket, -⟩
  · rw [closedBy, if_pos hlong, hpacket, UInt32.toNat_toUInt64]
    simp [sumOf]
  · rw [closedBy, if_neg hshort, hpacket, UInt64.toNat_add, UInt32.toNat_toUInt64, Nat.mod_eq_of_lt h]
    simp [sumOf]

theorem holds_packet {lens : List Nat} {closed : List UInt64} {s : Option FlowRateInfo}
    (h : Holds lens closed s) (p : FourLimiters.Packet) :
    Holds (lens ++ [p.len.toNat]) (closed ++ closedBy p.flowNow (before p s))
      (some (updateFlowRate p.flowNow (before p s) p.len)) := by
  have hp := p.len.toNat_lt
  obtain ⟨htotal, hwindow⟩ := updateFlowRate_bytes p.flowNow (before p s) p.len
  rcases s with _ | f
  · obtain ⟨rfl, rfl⟩ := h
    have hnew : (newFlow p.now p.len).totalBytes.toNat = p.len.toNat ∧
        (newFlow p.now p.len).packetBytes.toNat = p.len.toNat := by simp [newFlow]
    simp only [before, Option.getD_none] at htotal hwindow ⊢
    refine ⟨p.len.toNat, [], rfl, hp, ?_, fun _ => ?_⟩
    · simpa [hnew.1] using htotal
    · simpa [hnew.2] using hwindow (by omega)
  · obtain ⟨n, ns, rfl, hn, hsum, hwindows⟩ := h
    simp only [before, Option.getD_some] at htotal hwindow ⊢
    refine ⟨n, ns ++ [p.len.toNat], rfl, hn, ?_, fun hfits => ?_⟩
    · rw [htotal, hsum, List.sum_append, List.sum_singleton]
      omega
    · rw [List.sum_append, List.sum_singleton] at hfits ⊢
      have := hwindows (by omega)
      rw [sumOf_append]
      have := hwindow (by omega)
      omega

/-- After any calls. -/
theorem books_hold (is : List l.Input) :
    l.Clean (books l is).maps ∧ Holds (lengths l is) (books l is).closed (l.record (books l is).maps) := by
  induction is using List.reverseRecOn with
  | nil =>
    refine ⟨l.clean_start, ?_⟩
    rw [show l.record (books l []).maps = none from l.record_start]
    exact ⟨rfl, rfl⟩
  | append_singleton is i ih =>
    obtain ⟨hclean, hrec⟩ := Limiter.record_step ih.1 i
    have hbooks : books l (is ++ [i]) = (books l is).call i := by simp [books]
    have hlens : lengths l (is ++ [i]) = lengths l is ++ (l.packet i).elim [] fun p => [p.len.toNat] := by
      rcases h : l.packet i with _ | p <;> simp [lengths, h]
    rw [hbooks, hlens]
    refine ⟨hclean, ?_⟩
    simp only [Books.call]
    rw [hrec]
    rcases l.packet i with _ | p
    · simpa using ih.2
    · exact holds_packet ih.2 p

/-- The bytes are conserved if and only if the first packet has none and their sum fits. -/
theorem conserved_iff (l : Limiter) (is : List l.Input) :
    Conserved l is ↔ ∀ n ∈ (lengths l is).head?, n = 0 ∧ (lengths l is).sum < 2 ^ 64 := by
  have hholds := (books_hold is).2
  rcases hr : l.record (books l is).maps with _ | f
  · rw [hr] at hholds
    have hnone : lengths l is = [] := hholds.1
    refine iff_of_true ⟨?_, ?_⟩ ?_ <;> simp [hr, hnone]
  · rw [hr] at hholds
    obtain ⟨n, ns, hlens, hn, htotal, hwindows⟩ := hholds
    rw [hlens] at htotal hwindows ⊢
    simp only [List.head?_cons, Option.mem_some_iff, forall_eq']
    constructor
    · intro h
      have hsum := h.total f hr
      rw [hlens] at hsum
      have := f.totalBytes.toNat_lt
      omega
    · rintro ⟨rfl, hfits⟩
      have htotal : f.totalBytes.toNat = (0 :: ns).sum := by omega
      refine ⟨?_, ?_⟩ <;> simp only [hr, Option.mem_some_iff, forall_eq']
      · rw [hlens]
        exact htotal
      · rw [hwindows (by omega), htotal, Nat.zero_add]

/-- The interface limiter, for 112 bytes a second of ingress. -/
def ethLimiter : Limiter := .eth (FourLimiters.oneRule ⟨112, 1, ingress⟩)

/-- A frame of 28 bytes makes a total of 56. -/
theorem the_first_packet_counts_twice :
    ¬ Conserved ethLimiter [(⟨28, 1, 29⟩, ingress, ⟨5, 6, 7, 8, true⟩)] := by
  intro h
  have := h.total _ rfl
  revert this
  decide

/-! ## Rates -/

/-- One call of `update_flow_rate`. -/
structure Update where
  now : UInt64
  before : FlowRateInfo
  after : Option FlowRateInfo

/-- The law, for an update that leaves the record `f`. -/
structure RatesOf (now : UInt64) (b f : FlowRateInfo) : Prop where
  divisor : now - b.windowStartNs ≠ 0
  rate : f.rateBps.toNat = f.totalBytes.toNat * 1000000000 / (now.toNat - b.windowStartNs.toNat)
  instant : f.instanceRateBps.toNat =
    if 1000000000 ≤ now.toNat - b.lastNs.toNat then
      b.packetBytes.toNat * 1000000000 / (now.toNat - b.lastNs.toNat)
    else b.instanceRateBps.toNat

def Exact (u : Update) : Prop := ∃ f, u.after = some f ∧ RatesOf u.now u.before f

/-- The maps, the last clock reading an update or its handler has made, and the updates so
    far. -/
structure Timed (l : Limiter) where
  maps : l.Maps
  clock : UInt64
  log : List Update

variable (l) in
def timed : Timed l := ⟨l.start, 0, []⟩

/-- A call, on a clock that does not go back. -/
def Timed.call (i : l.Input) (s : Timed l) : Option (Timed l) :=
  let maps := l.step i s.maps
  match l.packet i with
  | none => some { s with maps }
  | some p =>
    if s.clock ≤ p.now ∧ p.now ≤ p.flowNow then
      some ⟨maps, p.flowNow, s.log ++ [⟨p.flowNow, before p (l.record s.maps), l.record maps⟩]⟩
    else none

/-- The condition on an update: it is later than the record, and the total fits. -/
def FitsAt (now : UInt64) (b : FlowRateInfo) (len : UInt32) : Prop :=
  b.windowStartNs < now ∧ (b.totalBytes + len.toUInt64).toNat * 1000000000 < 2 ^ 64

/-- The condition on a call. -/
def Fits (i : l.Input) (s : Timed l) : Prop :=
  ∀ p ∈ l.packet i, FitsAt p.flowNow (before p (l.record s.maps)) p.len

instance (now : UInt64) (b : FlowRateInfo) (len : UInt32) : Decidable (FitsAt now b len) :=
  inferInstanceAs (Decidable (_ ∧ _))

instance (i : l.Input) (s : Timed l) : Decidable (Fits i s) := by
  unfold Fits
  infer_instance

/-- Reduced modulo 2^64 a number has another quotient. -/
theorem mod_div_eq_iff {n d : Nat} (h0 : 0 < d) (hd : d < 2 ^ 64) : n % 2 ^ 64 / d = n / d ↔ n < 2 ^ 64 := by
  refine ⟨fun h => ?_, fun h => by rw [Nat.mod_eq_of_lt h]⟩
  by_contra hge
  have hstep : n % 2 ^ 64 + d ≤ n := by omega
  have := Nat.div_le_div_right (c := d) hstep
  rw [Nat.add_div_right _ h0] at this
  omega

/-- A total that fits leaves room for the window's bytes. -/
structure Small (f : FlowRateInfo) : Prop where
  packet : f.packetBytes.toNat ≤ f.totalBytes.toNat
  total : f.totalBytes.toNat * 1000000000 < 2 ^ 64

theorem small_newFlow (now : UInt64) (len : UInt32) : Small (newFlow now len) := by
  have := len.toNat_lt
  refine ⟨le_rfl, ?_⟩
  rw [show (newFlow now len).totalBytes.toNat = len.toNat from UInt32.toNat_toUInt64 _]
  omega

theorem toNat_div (a b d : UInt64) (h : d ≤ b) :
    (a * 1000000000 / (b - d)).toNat = a.toNat * 1000000000 % 2 ^ 64 / (b.toNat - d.toNat) := by
  rw [UInt64.toNat_div, UInt64.toNat_mul, UInt64.toNat_sub_of_le _ _ h]
  rfl

/-- The rates of an update, where the clock has not gone back. -/
theorem updateFlowRate_rates {now : UInt64} {b : FlowRateInfo} (len : UInt32) (hs : b.windowStartNs ≤ now)
    (hl : b.lastNs ≤ now) :
    let f := updateFlowRate now b len
    f.totalBytes = b.totalBytes + len.toUInt64 ∧
      f.rateBps.toNat =
        f.totalBytes.toNat * 1000000000 % 2 ^ 64 / (now.toNat - b.windowStartNs.toNat) ∧
      f.windowStartNs = b.windowStartNs ∧
      (1000000000 ≤ now.toNat - b.lastNs.toNat ∧ f.lastNs = now ∧ f.packetBytes = len.toUInt64 ∧
          f.instanceRateBps.toNat =
            b.packetBytes.toNat * 1000000000 % 2 ^ 64 / (now.toNat - b.lastNs.toNat) ∨
        now.toNat - b.lastNs.toNat < 1000000000 ∧ f.lastNs = b.lastNs ∧
          f.packetBytes = b.packetBytes + len.toUInt64 ∧ f.instanceRateBps = b.instanceRateBps) := by
  have hsub := UInt64.toNat_sub_of_le _ _ hl
  obtain ⟨hstart, htotal, hrate, hwindow⟩ := updateFlowRate_spec now b len
  have hrate : (updateFlowRate now b len).rateBps.toNat =
      (updateFlowRate now b len).totalBytes.toNat * 1000000000 % 2 ^ 64 /
        (now.toNat - b.windowStartNs.toNat) := by rw [hrate, htotal, toNat_div _ _ _ hs]
  refine ⟨htotal, hrate, hstart, ?_⟩
  rcases hwindow with ⟨hlong, hlast, hpacket, hinst⟩ | ⟨hshort, hlast, hpacket, hinst⟩
  · have hlong := UInt64.le_iff_toNat_le.mp hlong
    rw [hsub] at hlong
    exact .inl ⟨hlong, hlast, hpacket, by rw [hinst, toNat_div _ _ _ hl]⟩
  · have hshort := UInt64.lt_iff_toNat_lt.mp (UInt64.not_le.mp hshort)
    rw [hsub] at hshort
    exact .inr ⟨hshort, hlast, hpacket, hinst⟩

/-- An update of a small record is exact if and only if it fits. -/
theorem ratesOf_iff {now : UInt64} {b : FlowRateInfo} (len : UInt32) (hs : b.windowStartNs ≤ now)
    (hl : b.lastNs ≤ now) (hb : Small b) :
    RatesOf now b (updateFlowRate now b len) ↔ FitsAt now b len := by
  obtain ⟨htotal, hrate, -, hwindow⟩ := updateFlowRate_rates len hs hl
  have hsle := UInt64.le_iff_toNat_le.mp hs
  have hnow := now.toNat_lt
  have hdiv : now - b.windowStartNs ≠ 0 ↔ b.windowStartNs < now := by
    rw [ne_eq, ← UInt64.toNat_inj, UInt64.toNat_sub_of_le _ _ hs, UInt64.lt_iff_toNat_lt]
    show ¬ _ = 0 ↔ _
    omega
  constructor
  · intro h
    have hlt := hdiv.mp h.divisor
    refine ⟨hlt, ?_⟩
    have hlt := UInt64.lt_iff_toNat_lt.mp hlt
    rw [← htotal]
    exact (mod_div_eq_iff (by omega) (by omega)).mp (hrate.symm.trans h.rate)
  · rintro ⟨hlt, hfits⟩
    refine ⟨hdiv.mpr hlt, ?_, ?_⟩
    · rw [hrate, htotal, Nat.mod_eq_of_lt hfits]
    · rcases hwindow with ⟨hlong, -, -, hinst⟩ | ⟨hshort, -, -, hinst⟩
      · have hpacket : b.packetBytes.toNat * 1000000000 < 2 ^ 64 :=
          (Nat.mul_le_mul_right _ hb.packet).trans_lt hb.total
        rw [if_pos hlong, hinst, Nat.mod_eq_of_lt hpacket]
      · rw [if_neg (by omega), hinst]

theorem small_update {now : UInt64} {b : FlowRateInfo} {len : UInt32} (hs : b.windowStartNs ≤ now)
    (hl : b.lastNs ≤ now) (hb : Small b) (h : FitsAt now b len) : Small (updateFlowRate now b len) := by
  obtain ⟨htotal, -, -, hwindow⟩ := updateFlowRate_rates len hs hl
  have hlen := len.toNat_lt
  have hbig := hb.total
  have hle := hb.packet
  have hsum : (b.totalBytes + len.toUInt64).toNat = b.totalBytes.toNat + len.toNat := by
    rw [UInt64.toNat_add, UInt32.toNat_toUInt64]
    omega
  refine ⟨?_, ?_⟩
  · rw [htotal, hsum]
    rcases hwindow with ⟨-, -, hpacket, -⟩ | ⟨-, -, hpacket, -⟩
    · rw [hpacket, UInt32.toNat_toUInt64]
      omega
    · rw [hpacket, UInt64.toNat_add, UInt32.toNat_toUInt64]
      omega
  · rw [htotal]
    exact h.2

/-- The record is no later than the clock, and small as long as each update was exact. -/
structure Sound (s : Timed l) : Prop where
  clean : l.Clean s.maps
  started : ∀ f ∈ l.record s.maps, f.windowStartNs ≤ s.clock ∧ f.lastNs ≤ s.clock
  small : (∀ u ∈ s.log, Exact u) → ∀ f ∈ l.record s.maps, Small f

variable (l) in
theorem sound_timed : Sound (timed l) where
  clean := l.clean_start
  started f hf := by
    rw [show l.record (timed l).maps = none from l.record_start] at hf
    cases hf
  small _ f hf := by
    rw [show l.record (timed l).maps = none from l.record_start] at hf
    cases hf

/-- A call keeps `Sound`; after it each update was exact if and only if each was before it and
    its own one fits. -/
theorem sound_call {s t : Timed l} {i : l.Input} (h : Sound s) (hc : s.call i = some t) :
    Sound t ∧ ((∀ u ∈ t.log, Exact u) ↔ (∀ u ∈ s.log, Exact u) ∧ Fits i s) := by
  obtain ⟨hclean, hrec⟩ := Limiter.record_step h.clean i
  unfold Timed.call at hc
  unfold Fits
  rcases hp : l.packet i with _ | p
  · simp only [hp, Option.some.injEq] at hc hrec
    subst hc
    refine ⟨⟨hclean, ?_, ?_⟩, ?_⟩
    · rw [hrec]
      exact h.started
    · rw [hrec]
      exact h.small
    · simp
  · simp only [hp, Option.ite_none_right_eq_some, Option.some.injEq] at hc hrec
    obtain ⟨⟨hnow, hflow⟩, rfl⟩ := hc
    have hclock := UInt64.le_trans hnow hflow
    obtain ⟨b, hb⟩ : ∃ b, b = before p (l.record s.maps) := ⟨_, rfl⟩
    rw [← hb] at hrec
    have hbefore : b.windowStartNs ≤ p.flowNow ∧ b.lastNs ≤ p.flowNow ∧
        ((∀ u ∈ s.log, Exact u) → Small b) := by
      rw [hb]
      rcases hr : l.record s.maps with _ | f
      · exact ⟨hflow, hflow, fun _ => small_newFlow _ _⟩
      · obtain ⟨hs, hl⟩ := h.started f hr
        exact ⟨UInt64.le_trans hs hclock, UInt64.le_trans hl hclock, fun hall => h.small hall f hr⟩
    obtain ⟨hs, hl, hsmall⟩ := hbefore
    have hexact : Exact ⟨p.flowNow, b, l.record (l.step i s.maps)⟩ ↔
        RatesOf p.flowNow b (updateFlowRate p.flowNow b p.len) := by
      rw [hrec]
      exact ⟨fun ⟨f, hf, hr⟩ => by cases hf; exact hr, fun hr => ⟨_, rfl, hr⟩⟩
    have hall : (∀ u ∈ s.log ++ [⟨p.flowNow, b, l.record (l.step i s.maps)⟩], Exact u) ↔
        (∀ u ∈ s.log, Exact u) ∧ FitsAt p.flowNow b p.len := by
      rw [List.forall_mem_append, List.forall_mem_singleton, hexact]
      exact and_congr_right fun hall => ratesOf_iff p.len hs hl (hsmall hall)
    simp only [Option.mem_some_iff, forall_eq', ← hb]
    refine ⟨⟨hclean, ?_, ?_⟩, hall⟩
    · rw [hrec]
      rintro _ ⟨⟩
      obtain ⟨-, -, hstart, hwindow⟩ := updateFlowRate_rates p.len hs hl
      refine ⟨hstart ▸ hs, show _ ≤ p.flowNow from ?_⟩
      rcases hwindow with ⟨-, hlast, -⟩ | ⟨-, hlast, -⟩
      · rw [hlast]
        exact UInt64.le_rfl
      · rw [hlast]
        exact hl
    · intro hlog
      obtain ⟨hlog, hfits⟩ := hall.mp hlog
      rw [hrec]
      rintro _ ⟨⟩
      exact small_update hs hl (hsmall hlog) hfits

/-- Along a run each update is exact if and only if each one fits. -/
theorem exact_iff {is : List l.Input} {t : Timed l} (h : exec Timed.call is (timed l) = some t) :
    (∀ u ∈ t.log, Exact u) ↔ execIf Timed.call Fits is (timed l) = some t :=
  holds_iff_of_step (I := Sound) (fun _ _ _ hs hc => (sound_call hs hc).1)
    (fun _ _ _ hs hc => (sound_call hs hc).2) (sound_timed l) (by simp [timed]) h

/-- The calls for frames of 28 bytes, each with its two readings. -/
def frames (clock : List (UInt64 × UInt64)) : List ethLimiter.Input :=
  clock.map fun c => (⟨28, 1, 29⟩, ingress, ⟨c.1, c.2, c.2, c.2, true⟩)

/-- A tick between the first two readings, and a window that closes a second later. -/
def aSecond : List (UInt64 × UInt64) := [(5, 6), (7, 7), (1000000007, 1000000008)]

theorem a_tick_is_enough :
    ∃ t : Timed ethLimiter, exec Timed.call (frames aSecond) (timed _) = some t ∧ ∀ u ∈ t.log, Exact u := by
  have hrun : execIf Timed.call Fits (frames aSecond) (timed ethLimiter) = some _ := rfl
  exact ⟨_, exec_of_execIf hrun, (exact_iff (exec_of_execIf hrun)).mpr hrun⟩

/-- With both readings the same, the divisor is 0. -/
theorem no_tick_divides_by_zero :
    ∃ t : Timed ethLimiter, exec Timed.call (frames [(5, 5)]) (timed _) = some t ∧
      ¬ ∀ u ∈ t.log, Exact u := by
  refine ⟨_, rfl, fun h => ?_⟩
  obtain ⟨f, -, hrates⟩ := h _ (List.mem_singleton.mpr rfl)
  exact hrates.divisor rfl

end Ksight.Wirefisher.Monitored

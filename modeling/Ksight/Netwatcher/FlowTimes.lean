/-
  Ksight.Netwatcher.FlowTimes — the delays of UDP and ICMP packets
  (src/net/netwatcher/bpf/udp.bpf.h, icmp.bpf.h; bpf/common.bpf.h: `get_ip_pkt_tuple`,
  `get_udp_pkt_tuple`, `FILTER`; netwatcher.bpf.c: the probes).

  The first probe of a pair notes its time, the second one submits the time passed since
  then. They meet under a key of the flow, not of the packet: the tuple of a datagram,
  which for a sent one comes from the socket first and from the headers then, or the two
  addresses of an ICMP packet. Entries stay. The probes of any packets come in any order,
  the second one of ICMP also for packets of other protocols.

  The law (`Measured`): a packet that passes the second probe of a pair has a message if and
  only if it has passed the first, and the message has the difference of its two times.
  `measured_iff`: the law holds at the end of a run if and only if the latest start under
  the key of every second probe was the packet's own (`OwnStart`). So it fails for two packets
  of a flow that overlap (`overlapping_datagrams`), for a socket that is not connected
  (`unconnected_socket`) and for what passes the second probe alone
  (`another_protocol_is_reported`).
-/

import Mathlib.Logic.Function.Basic
import Ksight.Lib.Run
import Ksight.Netwatcher.Packet

namespace Ksight.Netwatcher.Flow

open Ksight.Lib
open Ksight.Netwatcher.Packet (KtimeInfo Timestamps div_mono)

structure IpPacket where
  saddr : UInt32
  daddr : UInt32
  deriving DecidableEq

/-- The fields read of a packet's IP and UDP headers, in network order. -/
structure UdpHeaders where
  saddr : UInt32
  daddr : UInt32
  source : UInt16
  dest : UInt16
  len : UInt16

/-- What is read of a sending socket; `dport` is in network order. -/
structure UdpSock where
  rcvSaddr : UInt32
  daddr : UInt32
  num : UInt16
  dport : UInt16

structure UdpMessage where
  saddr : UInt32
  daddr : UInt32
  sport : UInt16
  dport : UInt16
  tranTime : UInt64
  rx : Int
  len : UInt16
  deriving DecidableEq

structure Icmptime where
  saddr : UInt32
  daddr : UInt32
  icmpTranTime : UInt64
  flag : UInt32
  deriving DecidableEq

/-- The command line: `-u`, `-I`, `-s` and `-d`. -/
structure FlowOptions where
  udpInfo : Bool
  icmpInfo : Bool
  filterSport : UInt16
  filterDport : UInt16

abbrev IcmpTime := BoundedMap IpPacket UInt64 maxPackets

def udp : UInt32 := 2

def getUdpPktTuple (h : UdpHeaders) : PacketTuple :=
  ⟨h.saddr, h.daddr, bswap16 h.source, bswap16 h.dest, 0, 0, udp⟩

def udpSockTuple (sk : UdpSock) : PacketTuple := ⟨sk.rcvSaddr, sk.daddr, sk.num, bswap16 sk.dport, 0, 0, udp⟩

/-- `FILTER`. -/
def FlowOptions.excludes (o : FlowOptions) (t : PacketTuple) : Bool :=
  (o.filterDport ≠ 0 && o.filterDport ≠ t.dport) || (o.filterSport ≠ 0 && o.filterSport ≠ t.sport)

/-! ## The probes -/

variable (o : FlowOptions)

def noteUdp (victim t : PacketTuple) (ktime : UInt64) (m : Timestamps) : Timestamps :=
  if !o.udpInfo then m
  else if o.excludes t then m
  else
    match m.lookupOrTryInitLru victim t .zero with
    | none => m
    | some (_, m) => m.modify t fun tinfo => { tinfo with tranTime := ktime / 1000 }

def udpRcv (victim : PacketTuple) (h : UdpHeaders) := noteUdp o victim (getUdpPktTuple h)

def udpSendSkb (victim : PacketTuple) (sk : UdpSock) := noteUdp o victim (udpSockTuple sk)

def udpMessage (h : UdpHeaders) (rx : Int) (tranTime : UInt64) : UdpMessage :=
  let t := getUdpPktTuple h
  ⟨t.saddr, t.daddr, t.sport, t.dport, tranTime, rx, bswap16 h.len⟩

def submitUdp (rx : Int) (h : UdpHeaders) (ktime : UInt64) (reserved : Bool) (m : Timestamps) :
    Option UdpMessage :=
  if !o.udpInfo then none
  else if o.excludes (getUdpPktTuple h) then none
  else
    match m.lookup (getUdpPktTuple h) with
    | none => none
    | some tinfo => if reserved then some (udpMessage h rx (ktime / 1000 - tinfo.tranTime)) else none

def udpEnqueueScheduleSkb := submitUdp o 1

def ipSendSkb := submitUdp o 0

def icmpTime (victim ipk : IpPacket) (ktime : UInt64) (m : IcmpTime) : IcmpTime :=
  if !o.icmpInfo then m else m.updateLru victim ipk (ktime / 1000)

def submitIcmp (flag : UInt32) (ipk : IpPacket) (ktime : UInt64) (reserved : Bool) (m : IcmpTime) :
    Option Icmptime :=
  if !o.icmpInfo then none
  else
    match m.lookup ipk with
    | none => none
    | some preTime => if reserved then some ⟨ipk.saddr, ipk.daddr, ktime / 1000 - preTime, flag⟩ else none

def rcvendIcmpTime := submitIcmp o 0

def replyIcmpTime := submitIcmp o 1

/-! ## Packets -/

/-- The two probes whose times are subtracted. -/
inductive Pair where
  | udpRx
  | udpTx
  | icmpRcvend
  | icmpReply
  deriving DecidableEq

inductive Key where
  | udp (t : PacketTuple)
  | icmp (ipk : IpPacket)
  deriving DecidableEq

inductive Message where
  | udp (message : UdpMessage)
  | icmp (message : Icmptime)
  deriving DecidableEq

/-- What a second probe submitted, and what its packet asks for. -/
structure Outcome where
  emitted : Option Message
  due : Option Message
  deriving DecidableEq

structure St where
  timestamps : Timestamps
  icmpTime : IcmpTime
  clock : UInt64
  /-- The time of the latest first probe under a key. -/
  latest : Key → Option UInt64
  /-- When a packet passed the first probe of a pair whose second one it has not passed. -/
  pending : Nat × Pair → Option UInt64
  outcomes : List Outcome

def init : St := ⟨.empty, .empty, 0, fun _ => none, fun _ => none, []⟩

inductive Ev where
  | udpRcv (pkt : Nat) (h : UdpHeaders) (victim : PacketTuple) (ktime : UInt64)
  | udpEnqueueScheduleSkb (pkt : Nat) (h : UdpHeaders) (ktime : UInt64)
  | udpSendSkb (pkt : Nat) (sk : UdpSock) (victim : PacketTuple) (ktime : UInt64)
  | ipSendSkb (pkt : Nat) (h : UdpHeaders) (ktime : UInt64)
  | icmpRcv (pkt : Nat) (ipk victim : IpPacket) (ktime : UInt64)
  | sockQueueRcvSkb (pkt : Nat) (ipk : IpPacket) (ktime : UInt64)
  | icmpReply (pkt : Nat) (ipk : IpPacket) (ktime : UInt64)

/-- The packet has passed the first probe of the pairs. -/
def start (pkt : Nat) (pairs : List Pair) (key : Key) (ktime : UInt64) (st : St) : St :=
  { st with
    clock := ktime
    latest := Function.update st.latest key (some (ktime / 1000))
    pending := fun x => if x.1 = pkt ∧ x.2 ∈ pairs then some (ktime / 1000) else st.pending x }

/-- The time from `a` to `now`. -/
def elapsed (a now : UInt64) : UInt64 := .ofNat (now.toNat - a.toNat)

/-- The packet has passed the second probe of the pair. -/
def finish (pkt : Nat) (pair : Pair) (ktime : UInt64) (message : UInt64 → Message) (emitted : Option Message)
    (st : St) : St :=
  { st with
    clock := ktime
    pending := Function.update st.pending (pkt, pair) none
    outcomes := st.outcomes ++
      [⟨emitted, (st.pending (pkt, pair)).map fun a => message (elapsed a (ktime / 1000))⟩] }

/-- Both kinds of packets are traced, and no port is filtered. -/
def allFlows : FlowOptions := ⟨true, true, 0, 0⟩

/-- The maps and the ring buffers never fill. -/
def step : Ev → St → Option St
  | .udpRcv pkt h victim ktime, st =>
    if st.clock ≤ ktime ∧ st.timestamps.HasRoom (getUdpPktTuple h) then
      some (start pkt [.udpRx] (.udp (getUdpPktTuple h)) ktime
        { st with timestamps := udpRcv allFlows victim h ktime st.timestamps })
    else none
  | .udpEnqueueScheduleSkb pkt h ktime, st =>
    if st.clock ≤ ktime then
      some (finish pkt .udpRx ktime (fun t => .udp (udpMessage h 1 t))
        ((udpEnqueueScheduleSkb allFlows h ktime true st.timestamps).map .udp) st)
    else none
  | .udpSendSkb pkt sk victim ktime, st =>
    if st.clock ≤ ktime ∧ st.timestamps.HasRoom (udpSockTuple sk) then
      some (start pkt [.udpTx] (.udp (udpSockTuple sk)) ktime
        { st with timestamps := udpSendSkb allFlows victim sk ktime st.timestamps })
    else none
  | .ipSendSkb pkt h ktime, st =>
    if st.clock ≤ ktime then
      some (finish pkt .udpTx ktime (fun t => .udp (udpMessage h 0 t))
        ((ipSendSkb allFlows h ktime true st.timestamps).map .udp) st)
    else none
  | .icmpRcv pkt ipk victim ktime, st =>
    if st.clock ≤ ktime ∧ st.icmpTime.HasRoom ipk then
      some (start pkt [.icmpRcvend, .icmpReply] (.icmp ipk) ktime
        { st with icmpTime := icmpTime allFlows victim ipk ktime st.icmpTime })
    else none
  | .sockQueueRcvSkb pkt ipk ktime, st =>
    if st.clock ≤ ktime then
      some (finish pkt .icmpRcvend ktime (fun t => .icmp ⟨ipk.saddr, ipk.daddr, t, 0⟩)
        ((rcvendIcmpTime allFlows ipk ktime true st.icmpTime).map .icmp) st)
    else none
  | .icmpReply pkt ipk ktime, st =>
    if st.clock ≤ ktime then
      some (finish pkt .icmpReply ktime (fun t => .icmp ⟨ipk.saddr, ipk.daddr, t, 1⟩)
        ((replyIcmpTime allFlows ipk ktime true st.icmpTime).map .icmp) st)
    else none

/-! ## The law -/

def Measured (st : St) : Prop := ∀ x ∈ st.outcomes, x.emitted = x.due

/-- The condition: the latest start under the key of a second probe is the one of its own
    packet, or there is none and the packet has not passed the first probe. -/
def OwnStart : Ev → St → Prop
  | .udpEnqueueScheduleSkb pkt h _, st => st.pending (pkt, .udpRx) = st.latest (.udp (getUdpPktTuple h))
  | .ipSendSkb pkt h _, st => st.pending (pkt, .udpTx) = st.latest (.udp (getUdpPktTuple h))
  | .sockQueueRcvSkb pkt ipk _, st => st.pending (pkt, .icmpRcvend) = st.latest (.icmp ipk)
  | .icmpReply pkt ipk _, st => st.pending (pkt, .icmpReply) = st.latest (.icmp ipk)
  | _, _ => True

instance : ∀ (e : Ev) (st : St), Decidable (OwnStart e st)
  | .udpEnqueueScheduleSkb .., _ => inferInstanceAs (Decidable (_ = _))
  | .ipSendSkb .., _ => inferInstanceAs (Decidable (_ = _))
  | .sockQueueRcvSkb .., _ => inferInstanceAs (Decidable (_ = _))
  | .icmpReply .., _ => inferInstanceAs (Decidable (_ = _))
  | .udpRcv .., _ => inferInstanceAs (Decidable True)
  | .udpSendSkb .., _ => inferInstanceAs (Decidable True)
  | .icmpRcv .., _ => inferInstanceAs (Decidable True)

structure Inv (st : St) : Prop where
  udp : ∀ t, (st.timestamps.lookup t).map KtimeInfo.tranTime = st.latest (.udp t)
  icmp : ∀ ipk, st.icmpTime.lookup ipk = st.latest (.icmp ipk)
  past : ∀ x a, st.pending x = some a → a ≤ st.clock / 1000

theorem init_inv : Inv init := ⟨by simp [init], by simp [init], by simp [init]⟩

/-! ## What the probes do -/

theorem noteUdp_lookup {t : PacketTuple} {m : Timestamps} (h : m.HasRoom t) (victim : PacketTuple)
    (ktime : UInt64) (j : PacketTuple) :
    ((noteUdp allFlows victim t ktime m).lookup j).map KtimeInfo.tranTime =
      if j = t then some (ktime / 1000) else (m.lookup j).map KtimeInfo.tranTime := by
  have hex : allFlows.excludes t = false := rfl
  obtain ⟨n, hn, hl⟩ := BoundedMap.lookupOrTryInitLru_room h victim KtimeInfo.zero
  simp only [noteUdp, hex, hn, show allFlows.udpInfo = true from rfl, Bool.not_true, Bool.false_eq_true, if_false]
  rw [BoundedMap.lookup_modify]
  split
  · rw [hl, if_pos rfl]
    rfl
  · rw [hl, if_neg ‹_›]

theorem submitUdp_eq (rx : Int) (h : UdpHeaders) (ktime : UInt64) (m : Timestamps) :
    submitUdp allFlows rx h ktime true m =
      ((m.lookup (getUdpPktTuple h)).map KtimeInfo.tranTime).map fun b => udpMessage h rx (ktime / 1000 - b) := by
  have hex : allFlows.excludes (getUdpPktTuple h) = false := rfl
  simp only [submitUdp, hex, show allFlows.udpInfo = true from rfl, Bool.not_true, Bool.false_eq_true, if_false,
    if_true]
  cases m.lookup (getUdpPktTuple h) <;> rfl

theorem submitIcmp_eq (flag : UInt32) (ipk : IpPacket) (ktime : UInt64) (m : IcmpTime) :
    submitIcmp allFlows flag ipk ktime true m =
      (m.lookup ipk).map fun b => ⟨ipk.saddr, ipk.daddr, ktime / 1000 - b, flag⟩ := by
  simp only [submitIcmp, show allFlows.icmpInfo = true from rfl, Bool.not_true, Bool.false_eq_true, if_false, if_true]
  cases m.lookup ipk <;> rfl

/-! ## One step -/

/-- The difference is that of the packet's own times if and only if the start subtracted is. -/
theorem elapsed_eq_iff {a b now : UInt64} (h : a ≤ now) : now - b = elapsed a now ↔ b = a := by
  have hsub : elapsed a now = now - a := by
    rw [← UInt64.toNat_inj, UInt64.toNat_sub_of_le _ _ h, elapsed, UInt64.toNat_ofNat']
    have := now.toNat_lt
    omega
  rw [hsub, UInt64.sub_right_inj]

theorem start_past {st : St} (hi : Inv st) {ktime : UInt64} (hclock : st.clock ≤ ktime) (pkt : Nat)
    (pairs : List Pair) {x : Nat × Pair} {a : UInt64}
    (h : (if x.1 = pkt ∧ x.2 ∈ pairs then some (ktime / 1000) else st.pending x) = some a) :
    a ≤ ktime / 1000 := by
  split at h
  · cases h
    exact UInt64.le_refl _
  · exact UInt64.le_trans (hi.past x a h) (div_mono hclock)

theorem startUdp_inv {st : St} {t : PacketTuple} {ktime : UInt64} (hi : Inv st) (hclock : st.clock ≤ ktime)
    (hroom : st.timestamps.HasRoom t) (victim : PacketTuple) (pkt : Nat) (pairs : List Pair) :
    Inv (start pkt pairs (.udp t) ktime { st with timestamps := noteUdp allFlows victim t ktime st.timestamps }) := by
  refine ⟨fun j => ?_, fun ipk => ?_, fun x a h => start_past hi hclock pkt pairs h⟩
  · show ((noteUdp allFlows victim t ktime st.timestamps).lookup j).map _ = Function.update st.latest _ _ _
    rw [noteUdp_lookup hroom, Function.update_apply, hi.udp]
    simp only [Key.udp.injEq]
  · show _ = Function.update st.latest (.udp t) (some (ktime / 1000)) (.icmp ipk)
    rw [Function.update_of_ne (by simp)]
    exact hi.icmp ipk

theorem startIcmp_inv {st : St} {ipk : IpPacket} {ktime : UInt64} (hi : Inv st) (hclock : st.clock ≤ ktime)
    (hroom : st.icmpTime.HasRoom ipk) (victim : IpPacket) (pkt : Nat) (pairs : List Pair) :
    Inv (start pkt pairs (.icmp ipk) ktime
      { st with icmpTime := icmpTime allFlows victim ipk ktime st.icmpTime }) := by
  refine ⟨fun t => ?_, fun j => ?_, fun x a h => start_past hi hclock pkt pairs h⟩
  · show _ = Function.update st.latest (.icmp ipk) (some (ktime / 1000)) (.udp t)
    rw [Function.update_of_ne (by simp)]
    exact hi.udp t
  · show (st.icmpTime.updateLru victim ipk (ktime / 1000)).lookup j = Function.update st.latest _ _ _
    rw [BoundedMap.lookup_updateLru hroom, Function.update_apply, hi.icmp]
    simp only [Key.icmp.injEq]

theorem finish_inv {st : St} {ktime : UInt64} (hi : Inv st) (hclock : st.clock ≤ ktime) (pkt : Nat) (pair : Pair)
    (message : UInt64 → Message) (emitted : Option Message) :
    Inv (finish pkt pair ktime message emitted st) := by
  refine ⟨hi.udp, hi.icmp, fun x a h => ?_⟩
  by_cases e : x = (pkt, pair)
  · subst e
    simp [finish] at h
  · simp only [finish, Function.update_of_ne e] at h
    exact UInt64.le_trans (hi.past x a h) (div_mono hclock)

/-- What a second probe submits is due if and only if the start under its key is its
    packet's own. -/
theorem finish_measured {st : St} {ktime : UInt64} (hi : Inv st) (hclock : st.clock ≤ ktime) {pkt : Nat}
    {pair : Pair} {key : Key} {message : UInt64 → Message} (hinj : Function.Injective message)
    {emitted : Option Message} (he : emitted = (st.latest key).map fun b => message (ktime / 1000 - b)) :
    Measured (finish pkt pair ktime message emitted st) ↔
      Measured st ∧ st.pending (pkt, pair) = st.latest key := by
  have hdue : emitted = (st.pending (pkt, pair)).map (fun a => message (elapsed a (ktime / 1000))) ↔
      st.pending (pkt, pair) = st.latest key := by
    rw [he]
    rcases hp : st.pending (pkt, pair) with _ | a
    · cases st.latest key <;> simp
    · have hle := UInt64.le_trans (hi.past _ a hp) (div_mono hclock)
      rcases st.latest key with _ | b
      · simp
      · simp only [Option.map_some, Option.some.injEq, hinj.eq_iff, elapsed_eq_iff hle]
        exact eq_comm
  rw [← hdue]
  simp [Measured, finish, or_imp, forall_and]

theorem udpMessage_injective (h : UdpHeaders) (rx : Int) :
    Function.Injective fun t => Message.udp (udpMessage h rx t) := by
  intro s t e
  simpa [udpMessage] using e

theorem icmpMessage_injective (ipk : IpPacket) (flag : UInt32) :
    Function.Injective fun t => Message.icmp ⟨ipk.saddr, ipk.daddr, t, flag⟩ := by
  intro s t e
  simpa using e

theorem step_inv {e : Ev} {st st' : St} (hi : Inv st) (h : step e st = some st') : Inv st' := by
  cases e with
  | udpRcv pkt hd victim ktime =>
    simp only [step, Option.ite_none_right_eq_some, Option.some.injEq] at h
    obtain ⟨⟨hclock, hroom⟩, rfl⟩ := h
    exact startUdp_inv hi hclock hroom victim pkt _
  | udpSendSkb pkt sk victim ktime =>
    simp only [step, Option.ite_none_right_eq_some, Option.some.injEq] at h
    obtain ⟨⟨hclock, hroom⟩, rfl⟩ := h
    exact startUdp_inv hi hclock hroom victim pkt _
  | icmpRcv pkt ipk victim ktime =>
    simp only [step, Option.ite_none_right_eq_some, Option.some.injEq] at h
    obtain ⟨⟨hclock, hroom⟩, rfl⟩ := h
    exact startIcmp_inv hi hclock hroom victim pkt _
  | udpEnqueueScheduleSkb | ipSendSkb | sockQueueRcvSkb | icmpReply =>
    simp only [step, Option.ite_none_right_eq_some, Option.some.injEq] at h
    obtain ⟨hclock, rfl⟩ := h
    exact finish_inv hi hclock _ _ _ _

theorem step_measured {e : Ev} {st st' : St} (hi : Inv st) (h : step e st = some st') :
    Measured st' ↔ Measured st ∧ OwnStart e st := by
  cases e with
  | udpRcv | udpSendSkb | icmpRcv =>
    simp only [step, Option.ite_none_right_eq_some, Option.some.injEq] at h
    obtain ⟨-, rfl⟩ := h
    simp [Measured, OwnStart, start]
  | udpEnqueueScheduleSkb pkt hd ktime =>
    simp only [step, Option.ite_none_right_eq_some, Option.some.injEq] at h
    obtain ⟨hclock, rfl⟩ := h
    refine finish_measured hi hclock (udpMessage_injective hd 1) ?_
    rw [udpEnqueueScheduleSkb, submitUdp_eq, hi.udp, Option.map_map]
    rfl
  | ipSendSkb pkt hd ktime =>
    simp only [step, Option.ite_none_right_eq_some, Option.some.injEq] at h
    obtain ⟨hclock, rfl⟩ := h
    refine finish_measured hi hclock (udpMessage_injective hd 0) ?_
    rw [ipSendSkb, submitUdp_eq, hi.udp, Option.map_map]
    rfl
  | sockQueueRcvSkb pkt ipk ktime =>
    simp only [step, Option.ite_none_right_eq_some, Option.some.injEq] at h
    obtain ⟨hclock, rfl⟩ := h
    refine finish_measured hi hclock (icmpMessage_injective ipk 0) ?_
    rw [rcvendIcmpTime, submitIcmp_eq, hi.icmp, Option.map_map]
    rfl
  | icmpReply pkt ipk ktime =>
    simp only [step, Option.ite_none_right_eq_some, Option.some.injEq] at h
    obtain ⟨hclock, rfl⟩ := h
    refine finish_measured hi hclock (icmpMessage_injective ipk 1) ?_
    rw [replyIcmpTime, submitIcmp_eq, hi.icmp, Option.map_map]
    rfl

/-- The packets of a run have the messages that are due, and no others, if and only if each
    second probe of the run met the condition. -/
theorem measured_iff {es : List Ev} {st : St} (h : exec step es init = some st) :
    Measured st ↔ execIf step OwnStart es init = some st :=
  holds_iff_of_step (fun _ _ _ => step_inv) (fun _ _ _ => step_measured) init_inv (by simp [Measured, init]) h

/-! ## A few packets -/

def noIp : IpPacket := ⟨0, 0⟩

/-- A datagram from port 53 of 10.0.0.1 to port 80 of 10.0.0.2, and a socket that sends it
    when it is connected to `daddr` and `dport`. -/
def datagram : UdpHeaders := ⟨0x0100000a, 0x0200000a, 0x3500, 0x5000, 0x0800⟩

def sender (daddr : UInt32) (dport : UInt16) : UdpSock := ⟨0x0100000a, daddr, 53, dport⟩

def echo : IpPacket := ⟨0x0100000a, 0x0200000a⟩

/-- A datagram is received, one is sent and an echo request is answered. -/
def oneOfEach : List Ev :=
  [.udpRcv 1 datagram zeroTuple 1000, .icmpRcv 3 echo noIp 2000, .udpEnqueueScheduleSkb 1 datagram 3000,
    .udpSendSkb 2 (sender 0x0200000a 0x5000) zeroTuple 4000, .icmpReply 3 echo 5000, .ipSendSkb 2 datagram 9000]

theorem one_of_each_is_measured :
    ∃ st, exec step oneOfEach init = some st ∧
      st.outcomes.map Outcome.emitted = [some (.udp (udpMessage datagram 1 2)),
        some (.icmp ⟨0x0100000a, 0x0200000a, 3, 1⟩), some (.udp (udpMessage datagram 0 5))] ∧ Measured st := by
  obtain ⟨st, hexec, hif, hs⟩ := execIf_any step OwnStart init oneOfEach
    (fun st => decide (st.outcomes.map Outcome.emitted =
      [some (.udp (udpMessage datagram 1 2)), some (.icmp ⟨0x0100000a, 0x0200000a, 3, 1⟩),
        some (.udp (udpMessage datagram 0 5))])) (by decide +kernel)
  exact ⟨st, hexec, of_decide_eq_true hs, (measured_iff hexec).mpr hif⟩

/-- A run that ends in an outcome that is not due is not measured. -/
theorem not_measured (es : List Ev) (x : Outcome) (hx : x.emitted ≠ x.due)
    (h : (exec step es init).any (fun st => decide (x ∈ st.outcomes)) = true) :
    ∃ st, Run step anyEvent init st ∧ ¬ Measured st := by
  obtain ⟨st, hr, hs⟩ := run_of_exec_any step init es (fun st => decide (x ∈ st.outcomes)) h
  exact ⟨st, hr, fun hm => hx (hm x (of_decide_eq_true hs))⟩

/-- Packet 2 starts before packet 1 is enqueued: packet 1 has a message with 1 us, not 2. -/
theorem overlapping_datagrams : ∃ st, Run step anyEvent init st ∧ ¬ Measured st :=
  not_measured
    [.udpRcv 1 datagram zeroTuple 1000, .udpRcv 2 datagram zeroTuple 2000, .udpEnqueueScheduleSkb 1 datagram 3000]
    ⟨some (.udp (udpMessage datagram 1 1)), some (.udp (udpMessage datagram 1 2))⟩ (by decide) (by decide +kernel)

/-- The socket has no destination, the headers have: no message. -/
theorem unconnected_socket : ∃ st, Run step anyEvent init st ∧ ¬ Measured st :=
  not_measured [.udpSendSkb 1 (sender 0 0) zeroTuple 1000, .ipSendSkb 1 datagram 3000]
    ⟨none, some (.udp (udpMessage datagram 0 2))⟩ (by decide) (by decide +kernel)

/-- Packet 2 is no ICMP packet and passes `__sock_queue_rcv_skb` only. -/
theorem another_protocol_is_reported : ∃ st, Run step anyEvent init st ∧ ¬ Measured st :=
  not_measured [.icmpRcv 1 echo noIp 1000, .icmpReply 1 echo 2000, .sockQueueRcvSkb 2 echo 9000]
    ⟨some (.icmp ⟨0x0100000a, 0x0200000a, 8, 0⟩), none⟩ (by decide) (by decide +kernel)

end Ksight.Netwatcher.Flow

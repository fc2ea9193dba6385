/-
  Ksight.Netwatcher.NfTime — the times of a packet in the netfilter stages
  (src/net/netwatcher/bpf/netfilter.bpf.h: `submit_nf_time`, `store_nf_time`;
  bpf/common.bpf.h: `nf_hook`, `struct filtertime`, `get_pkt_tuple`).

  A packet passes the hooks of one of three paths. Each hook notes its time in the
  packet's record, which the first one creates; the last one, `ip_local_deliver_finish` or
  `__ip_finish_output`, submits a message and deletes the record. The hooks of different
  packets come in any order, and a pointer is used again only after its packet is done.

  The law (`Classified`): the messages are, one for each packet that is done, its
  direction and the differences of its own times (`expected`). What is submitted is
  `reported`: for a forwarded packet both tests of `submit_nf_time` fail, one because it
  asks for the local-deliver times, the other for the local-out time, and a message of
  direction 0 without any times goes out. `classified_iff`: a run is classified exactly
  when no packet done in it was forwarded.
-/

import Ksight.Lib.BoundedMap
import Ksight.Lib.Endian
import Ksight.Lib.Run

namespace Ksight.Netwatcher

open Ksight.Lib

inductive NfHook where
  | ipRcv
  | ipLocalDeliver
  | ipLocalDeliverFinish
  | ipForwardUnused
  | ipLocalOut
  | ipOutput
  | ipFinishOutput
  | ipForward
  deriving DecidableEq

structure PacketTuple where
  saddr : UInt32
  daddr : UInt32
  sport : UInt16
  dport : UInt16
  seq : UInt32
  ack : UInt32
  tranFlag : UInt32
  deriving DecidableEq

/-- The fields read of a packet's IP and TCP headers, in network order. -/
structure Headers where
  saddr : UInt32
  daddr : UInt32
  source : UInt16
  dest : UInt16
  seq : UInt32
  ackSeq : UInt32

structure FilterTime where
  init : PacketTuple
  done : PacketTuple
  time : NfHook → UInt64

structure Netfilter where
  saddr : UInt32
  daddr : UInt32
  sport : UInt16
  dport : UInt16
  localInputTime : UInt64
  preRoutingTime : UInt64
  forwardTime : UInt64
  localOutTime : UInt64
  postRoutingTime : UInt64
  rx : UInt32
  deriving DecidableEq

/-- The command line: `-n`, `-s` and `-d`. -/
structure Options where
  netFilter : Bool
  filterSport : UInt16
  filterDport : UInt16

def tcp : UInt32 := 1

def getPktTuple (h : Headers) : PacketTuple where
  saddr := h.saddr
  daddr := h.daddr
  sport := bswap16 h.source
  dport := bswap16 h.dest
  seq := bswap32 h.seq
  ack := bswap32 h.ackSeq
  tranFlag := tcp

/-- The sign bit of the lower half, which a cast to int keeps. -/
def negative (x : UInt64) : Prop := 2 ^ 31 ≤ x.toNat % 2 ^ 32

instance (x : UInt64) : Decidable (negative x) := inferInstanceAs (Decidable (_ ≤ _))

def messageOf (t : PacketTuple) (rx : UInt32) : Netfilter := ⟨t.saddr, t.daddr, t.sport, t.dport, 0, 0, 0, 0, 0, rx⟩

/-- The first test of the branch for packets that are sent. -/
def forwardTimes (tinfo : FilterTime) (message : Netfilter) : Option Netfilter :=
  if tinfo.time .ipLocalDeliverFinish ≠ 0 ∧ tinfo.time .ipLocalDeliver ≠ 0 ∧ tinfo.time .ipRcv ≠ 0 ∧
      tinfo.time .ipForward ≠ 0 ∧ tinfo.time .ipOutput ≠ 0 then
    let forwardTime := tinfo.time .ipOutput - tinfo.time .ipForward
    if negative forwardTime then none
    else some { message with
      localInputTime := tinfo.time .ipLocalDeliverFinish - tinfo.time .ipLocalDeliver
      preRoutingTime := tinfo.time .ipLocalDeliver - tinfo.time .ipRcv
      forwardTime := forwardTime
      rx := 2 }
  else some message

/-- The second one. -/
def sendTimes (tinfo : FilterTime) (message : Netfilter) : Option Netfilter :=
  if tinfo.time .ipOutput ≠ 0 ∧ tinfo.time .ipLocalOut ≠ 0 ∧ tinfo.time .ipFinishOutput ≠ 0 then
    let localOutTime := tinfo.time .ipOutput - tinfo.time .ipLocalOut
    let postRoutingTime := tinfo.time .ipFinishOutput - tinfo.time .ipOutput
    if negative localOutTime ∨ negative postRoutingTime then none
    else some { message with localOutTime := localOutTime, postRoutingTime := postRoutingTime }
  else some message

def receiveTimes (tinfo : FilterTime) (message : Netfilter) : Option Netfilter :=
  if tinfo.time .ipLocalDeliverFinish ≠ 0 ∧ tinfo.time .ipLocalDeliver ≠ 0 ∧ tinfo.time .ipRcv ≠ 0 then
    let localInputTime := tinfo.time .ipLocalDeliverFinish - tinfo.time .ipLocalDeliver
    let preRoutingTime := tinfo.time .ipLocalDeliver - tinfo.time .ipRcv
    if negative localInputTime ∨ negative preRoutingTime then none
    else some { message with localInputTime := localInputTime, preRoutingTime := preRoutingTime }
  else some message

/-- The message submitted, if one is; `reserved` says whether the ring buffer has room. -/
def submitNfTime (o : Options) (reserved : Bool) (pktTuple : PacketTuple) (tinfo : FilterTime) (rx : UInt32) :
    Option Netfilter :=
  if o.filterDport ≠ 0 ∧ o.filterDport ≠ pktTuple.dport then none
  else if o.filterSport ≠ 0 ∧ o.filterSport ≠ pktTuple.sport then none
  else if reserved = false then none
  else if rx = 1 then receiveTimes tinfo (messageOf pktTuple rx)
  else (forwardTimes tinfo (messageOf pktTuple rx)).bind (sendTimes tinfo)

def maxPackets : Nat := 1000000

abbrev NetfilterTime := BoundedMap UInt64 FilterTime maxPackets

def zeroTuple : PacketTuple := ⟨0, 0, 0, 0, 0, 0, 0⟩

def zeroTime : FilterTime := ⟨zeroTuple, zeroTuple, fun _ => 0⟩

/-- A write of the record under `skb`, through the pointer the lookup returned. -/
def stamp (m : NetfilterTime) (skb : UInt64) (hook : NfHook) (now : UInt64) (tinfo : FilterTime) :
    FilterTime × NetfilterTime :=
  let tinfo := { tinfo with time := Function.update tinfo.time hook now }
  (tinfo, m.modify skb fun _ => tinfo)

/-- `ktime` is the reading of `bpf_ktime_get_ns`, `skb` the packet's pointer. -/
def storeNfTime (o : Options) (reserved : Bool) (skb : UInt64) (h : Headers) (hook : NfHook) (ktime : UInt64)
    (m : NetfilterTime) : Option Netfilter × NetfilterTime :=
  if o.netFilter = false then (none, m)
  else if skb = 0 then (none, m)
  else
    let found :=
      if hook = .ipRcv ∨ hook = .ipLocalOut then
        (m.lookupOrTryInit skb zeroTime).map fun (tinfo, m) => ({ tinfo with init := getPktTuple h }, m)
      else (m.lookup skb).map fun tinfo => (tinfo, m)
    match found with
    | none => (none, m)
    | some (tinfo, m) =>
      let (tinfo, m) := stamp m skb hook (ktime / 1000) tinfo
      if hook = .ipLocalDeliverFinish then
        (submitNfTime o reserved tinfo.init tinfo 1, m.delete skb)
      else if hook = .ipFinishOutput then
        (submitNfTime o reserved tinfo.init tinfo 0, m.delete skb)
      else (none, m)

/-! ## Packets and their paths -/

inductive Path where
  | receive
  | send
  | forward
  deriving DecidableEq

def Path.hooks : Path → List NfHook
  | .receive => [.ipRcv, .ipLocalDeliver, .ipLocalDeliverFinish]
  | .send => [.ipLocalOut, .ipOutput, .ipFinishOutput]
  | .forward => [.ipRcv, .ipForward, .ipOutput, .ipFinishOutput]

/-- A packet with the readings of the hooks it has passed, in microseconds. -/
structure Passage where
  path : Path
  tuple : PacketTuple
  times : List UInt64

/-- The reading of a hook, 0 before it is passed. -/
def Passage.timeAt (p : Passage) (h : NfHook) : UInt64 := ((p.path.hooks.zip p.times).lookup h).getD 0

def Passage.nextHook (p : Passage) : Option NfHook := p.path.hooks[p.times.length]?

/-- What the message of the packet should be. -/
def expected (p : Passage) : Netfilter :=
  let t := p.timeAt
  match p.path with
  | .receive => { messageOf p.tuple 1 with
      preRoutingTime := t .ipLocalDeliver - t .ipRcv
      localInputTime := t .ipLocalDeliverFinish - t .ipLocalDeliver }
  | .send => { messageOf p.tuple 0 with
      localOutTime := t .ipOutput - t .ipLocalOut
      postRoutingTime := t .ipFinishOutput - t .ipOutput }
  | .forward => { messageOf p.tuple 2 with
      preRoutingTime := t .ipForward - t .ipRcv
      forwardTime := t .ipOutput - t .ipForward
      postRoutingTime := t .ipFinishOutput - t .ipOutput }

structure St where
  netfilterTime : NetfilterTime
  netfilterRb : List Netfilter
  /-- The packets under way, by their pointers. -/
  live : UInt64 → Option Passage
  /-- The packets that are done, in the order they were. -/
  finished : List Passage

def init : St := ⟨.empty, [], fun _ => none, []⟩

inductive Ev where
  | enter (skb : UInt64) (path : Path) (h : Headers) (ktime : UInt64)
  | next (skb : UInt64) (h : Headers) (ktime : UInt64)

/-- Stage timing is on and no port is filtered. -/
def allPorts : Options := ⟨true, 0, 0⟩

/-- A reading that can follow the ones of the packet: not before the last, and less than
    2^31 after the first. -/
def Follows (now : UInt64) (p : Passage) : Prop :=
  ∀ t ∈ p.times, t ≤ now ∧ now.toNat < t.toNat + 2 ^ 31

instance (now : UInt64) (p : Passage) : Decidable (Follows now p) :=
  List.decidableBAll _ p.times

/-- The packet passes the hook: its handler runs, and a packet that has no hook left is
    done. -/
def pass (st : St) (skb : UInt64) (p : Passage) (hook : NfHook) (h : Headers) (ktime : UInt64) : St :=
  let r := storeNfTime allPorts true skb h hook ktime st.netfilterTime
  let p := { p with times := p.times ++ [ktime / 1000] }
  let st := { st with netfilterTime := r.2, netfilterRb := st.netfilterRb ++ r.1.toList }
  if p.nextHook = none then
    { st with live := Function.update st.live skb none, finished := st.finished ++ [p] }
  else { st with live := Function.update st.live skb (some p) }

def step : Ev → St → Option St
  | .enter skb path h ktime, st =>
    if skb ≠ 0 ∧ st.live skb = none ∧ st.netfilterTime.keys.card < maxPackets ∧ ktime / 1000 ≠ 0 then
      path.hooks.head?.map fun hook => pass st skb ⟨path, getPktTuple h, []⟩ hook h ktime
    else none
  | .next skb h ktime, st =>
    match st.live skb with
    | none => none
    | some p =>
      if Follows (ktime / 1000) p then p.nextHook.map fun hook => pass st skb p hook h ktime else none

/-! ## The law -/

/-- Each packet that is done has its one message. -/
def Classified (st : St) : Prop := st.netfilterRb = st.finished.map expected

/-- The message a finished packet gets. -/
def reported (p : Passage) : Netfilter :=
  match p.path with
  | .forward => messageOf p.tuple 0
  | _ => expected p

/-! ## One handler -/

theorem stamp_spec (m : NetfilterTime) (skb : UInt64) (hook : NfHook) (now : UInt64) (tinfo : FilterTime)
    {v : FilterTime} (h : m.lookup skb = some v) (j : UInt64) :
    (stamp m skb hook now tinfo).2.lookup j =
      if j = skb then some { tinfo with time := Function.update tinfo.time hook now } else m.lookup j := by
  rw [stamp, BoundedMap.lookup_modify, h]
  rfl

def freshTime (h : Headers) : FilterTime := { zeroTime with init := getPktTuple h }

/-- The record a hook stamps: a fresh one at the hooks a path begins with, the stored one
    at the others. -/
def Found (m : NetfilterTime) (skb : UInt64) (h : Headers) (hook : NfHook) (tinfo : FilterTime) : Prop :=
  (hook = .ipRcv ∨ hook = .ipLocalOut) ∧ m.lookup skb = none ∧ m.keys.card < maxPackets ∧
      tinfo = freshTime h ∨
    (¬ (hook = .ipRcv ∨ hook = .ipLocalOut)) ∧ m.lookup skb = some tinfo

/-- What a handler makes of the record it finds. -/
theorem storeNfTime_eq {m : NetfilterTime} {skb : UInt64} {h : Headers} {hook : NfHook} {tinfo : FilterTime}
    (hskb : skb ≠ 0) (hf : Found m skb h hook tinfo) (ktime : UInt64) :
    ∃ m', (∀ j, m'.lookup j = if j = skb then some
          { tinfo with time := Function.update tinfo.time hook (ktime / 1000) } else m.lookup j) ∧
      storeNfTime allPorts true skb h hook ktime m =
        if hook = .ipLocalDeliverFinish then
          (submitNfTime allPorts true tinfo.init
            { tinfo with time := Function.update tinfo.time hook (ktime / 1000) } 1, m'.delete skb)
        else if hook = .ipFinishOutput then
          (submitNfTime allPorts true tinfo.init
            { tinfo with time := Function.update tinfo.time hook (ktime / 1000) } 0, m'.delete skb)
        else (none, m') := by
  have hon : ¬ allPorts.netFilter = false := by decide
  unfold storeNfTime
  rw [if_neg hon, if_neg hskb]
  rcases hf with ⟨hfirst, hnone, hroom, rfl⟩ | ⟨hrest, hsome⟩
  · obtain ⟨n, hn, hl⟩ := BoundedMap.lookupOrTryInit_room (.inr hroom) (m := m) (k := skb) zeroTime
    rw [hnone] at hn hl
    have hs := stamp_spec n skb hook (ktime / 1000) (freshTime h) (hl skb ▸ if_pos rfl)
    refine ⟨(stamp n skb hook (ktime / 1000) (freshTime h)).2, fun j => ?_, ?_⟩
    · rw [hs j, hl j]
      split <;> rfl
    · rw [if_pos hfirst, hn]
      rfl
  · refine ⟨(stamp m skb hook (ktime / 1000) tinfo).2, stamp_spec m skb hook (ktime / 1000) tinfo hsome, ?_⟩
    rw [if_neg hrest, hsome]
    rfl

/-! ## The times of a passage -/

/-- Readings in their order, none 0 and none 2^31 or more after another. -/
def Sound (times : List UInt64) : Prop :=
  (∀ t ∈ times, t ≠ 0) ∧ times.Pairwise fun s t => s ≤ t ∧ t.toNat < s.toNat + 2 ^ 31

theorem sound_append {p : Passage} {now : UInt64} (h : Sound p.times) (h0 : now ≠ 0) (hf : Follows now p) :
    Sound (p.times ++ [now]) := by
  refine ⟨?_, List.pairwise_append.mpr ⟨h.2, List.pairwise_singleton _ _, ?_⟩⟩
  · intro t ht
    rcases List.mem_append.mp ht with ht | ht
    · exact h.1 t ht
    · rw [List.mem_singleton.mp ht]; exact h0
  · intro s hs t ht
    rw [List.mem_singleton.mp ht]
    exact hf s hs

/-- Passing the next hook notes its reading and no other. -/
theorem timeAt_append {p : Passage} {hook : NfHook} (h : p.nextHook = some hook) (now : UInt64) :
    ({ p with times := p.times ++ [now] } : Passage).timeAt = Function.update p.timeAt hook now := by
  obtain ⟨path, tuple, times⟩ := p
  funext k
  rcases path with _ | _ | _ <;> rcases times with _ | ⟨t0, _ | ⟨t1, _ | ⟨t2, _ | ⟨t3, ts⟩⟩⟩⟩ <;>
    simp [Passage.nextHook, Path.hooks] at h <;> subst h <;> cases k <;> rfl

theorem not_negative {s t : UInt64} (h : s ≤ t ∧ t.toNat < s.toNat + 2 ^ 31) : ¬ negative (t - s) := by
  have hle := UInt64.le_iff_toNat_le.mp h.1
  unfold negative
  rw [UInt64.toNat_sub_of_le _ _ h.1]
  omega

/-- A packet is done with one of the two hooks that submit, and with no other. -/
theorem nextHook_append {p : Passage} {hook : NfHook} (h : p.nextHook = some hook) (now : UInt64) :
    (({ p with times := p.times ++ [now] } : Passage).nextHook = none →
        p.times.length + 1 = p.path.hooks.length ∧
        hook = if p.path = .receive then .ipLocalDeliverFinish else .ipFinishOutput) ∧
      (({ p with times := p.times ++ [now] } : Passage).nextHook ≠ none →
        hook ≠ .ipLocalDeliverFinish ∧ hook ≠ .ipFinishOutput) := by
  obtain ⟨path, tuple, times⟩ := p
  rcases path with _ | _ | _ <;> rcases times with _ | ⟨t0, _ | ⟨t1, _ | ⟨t2, _ | ⟨t3, ts⟩⟩⟩⟩ <;>
    simp [Passage.nextHook, Path.hooks] at h ⊢ <;> subst h <;> decide

/-- The message submitted for a finished packet. -/
theorem submit_reported {p : Passage} (hs : Sound p.times) (hdone : p.times.length = p.path.hooks.length)
    (tinfo : FilterTime) (ht : tinfo.time = p.timeAt) :
    submitNfTime allPorts true p.tuple tinfo (if p.path = .receive then 1 else 0) = some (reported p) := by
  obtain ⟨path, tuple, times⟩ := p
  obtain ⟨h0, hpair⟩ := hs
  rcases path with _ | _ | _ <;>
    rcases times with _ | ⟨t0, _ | ⟨t1, _ | ⟨t2, _ | ⟨t3, _ | ⟨t4, ts⟩⟩⟩⟩⟩ <;>
    simp [Path.hooks] at hdone
  case receive.cons.cons.cons.nil =>
    simp only [List.mem_cons, List.not_mem_nil, or_false, forall_eq_or_imp, forall_eq] at h0
    simp only [List.pairwise_cons, List.mem_cons, List.not_mem_nil, or_false, forall_eq_or_imp, forall_eq] at hpair
    have e0 : tinfo.time .ipRcv = t0 := ht ▸ rfl
    have e1 : tinfo.time .ipLocalDeliver = t1 := ht ▸ rfl
    have e2 : tinfo.time .ipLocalDeliverFinish = t2 := ht ▸ rfl
    simp [submitNfTime, allPorts, receiveTimes, reported, expected, messageOf, ← ht, e0, e1, e2, h0,
      not_negative hpair.1.1, not_negative hpair.2.1]
  case send.cons.cons.cons.nil =>
    simp only [List.mem_cons, List.not_mem_nil, or_false, forall_eq_or_imp, forall_eq] at h0
    simp only [List.pairwise_cons, List.mem_cons, List.not_mem_nil, or_false, forall_eq_or_imp, forall_eq] at hpair
    have e0 : tinfo.time .ipLocalOut = t0 := ht ▸ rfl
    have e1 : tinfo.time .ipOutput = t1 := ht ▸ rfl
    have e2 : tinfo.time .ipFinishOutput = t2 := ht ▸ rfl
    have eno : tinfo.time .ipRcv = 0 := ht ▸ rfl
    simp [submitNfTime, allPorts, forwardTimes, sendTimes, reported, expected, messageOf, ← ht, e0, e1, e2, eno, h0,
      not_negative hpair.1.1, not_negative hpair.2.1]
  case forward.cons.cons.cons.cons.nil =>
    -- the record has no local-deliver time and no local-out time
    have e1 : tinfo.time .ipLocalDeliver = 0 := ht ▸ rfl
    have e2 : tinfo.time .ipLocalOut = 0 := ht ▸ rfl
    simp [submitNfTime, allPorts, forwardTimes, sendTimes, reported, messageOf, e1, e2]

/-! ## The invariant -/

/-- What the map holds under a pointer: the readings of the packet under way there, or
    nothing. -/
def Recorded (m : NetfilterTime) (skb : UInt64) : Option Passage → Prop
  | none => m.lookup skb = none
  | some p => skb ≠ 0 ∧ p.times ≠ [] ∧ Sound p.times ∧
    ∃ tinfo, m.lookup skb = some tinfo ∧ tinfo.init = p.tuple ∧ tinfo.time = p.timeAt

structure Inv (st : St) : Prop where
  records : ∀ skb, Recorded st.netfilterTime skb (st.live skb)
  messages : st.netfilterRb = st.finished.map reported

theorem init_inv : Inv init := ⟨fun _ => BoundedMap.lookup_empty _, rfl⟩

theorem recorded_congr {m m' : NetfilterTime} {skb : UInt64} (h : m'.lookup skb = m.lookup skb)
    {x : Option Passage} (hx : Recorded m skb x) :
    Recorded m' skb x := by
  rcases x with _ | p
  · exact h.trans hx
  · obtain ⟨h0, hne, hs, tinfo, hl, ht⟩ := hx
    exact ⟨h0, hne, hs, tinfo, h.trans hl, ht⟩

/-- A change of one pointer's record and packet that keeps them in step. -/
theorem records_update {st : St} (hi : Inv st) {m' : NetfilterTime} {skb : UInt64} {x : Option Passage}
    (hl : ∀ j, j ≠ skb → m'.lookup j = st.netfilterTime.lookup j) (hx : Recorded m' skb x) (j : UInt64) :
    Recorded m' j (Function.update st.live skb x j) := by
  by_cases e : j = skb
  · subst e
    rwa [Function.update_self]
  · rw [Function.update_of_ne e]
    exact recorded_congr (hl j e) (hi.records j)

/-- The handler of a packet's next hook adds its reading to the record, and at the last
    hook submits the packet's message and deletes the record. -/
theorem storeNfTime_passage {m : NetfilterTime} {skb : UInt64} {p : Passage} {hook : NfHook} {h : Headers}
    {ktime : UInt64} {tinfo : FilterTime} (hskb : skb ≠ 0) (hf : Found m skb h hook tinfo)
    (hinit : tinfo.init = p.tuple) (htime : tinfo.time = p.timeAt) (hnext : p.nextHook = some hook)
    (hs : Sound (p.times ++ [ktime / 1000])) {p' : Passage}
    (hp' : p' = { p with times := p.times ++ [ktime / 1000] }) :
    ∃ m' tinfo', (∀ j, m'.lookup j = if j = skb then some tinfo' else m.lookup j) ∧
      tinfo'.init = p'.tuple ∧ tinfo'.time = p'.timeAt ∧
      storeNfTime allPorts true skb h hook ktime m =
        if p'.nextHook = none then (some (reported p'), m'.delete skb) else (none, m') := by
  obtain ⟨m', hl, hstore⟩ := storeNfTime_eq hskb hf ktime
  obtain ⟨hlast, hmore⟩ := nextHook_append hnext (ktime / 1000)
  have htime' : Function.update tinfo.time hook (ktime / 1000) = p'.timeAt := by
    rw [htime, hp', timeAt_append hnext]
  refine ⟨m', _, hl, by rw [hp']; exact hinit, htime', ?_⟩
  rw [hstore, hinit]
  rw [← hp'] at hlast hmore
  by_cases hdone : p'.nextHook = none
  · obtain ⟨hlen, hhook⟩ := hlast hdone
    have hsub := fun t ht => submit_reported (p := p') (by rw [hp']; exact hs)
      (by rw [hp']; simpa using hlen) t ht
    have htuple : p.tuple = p'.tuple := by rw [hp']
    have hpath : p'.path = p.path := by rw [hp']
    rw [hpath] at hsub
    rw [if_pos hdone, htuple]
    by_cases hp : p.path = .receive
    · rw [if_pos hp] at hhook hsub
      rw [if_pos hhook, hsub _ htime']
    · rw [if_neg hp] at hhook hsub
      rw [if_neg (by rw [hhook]; decide), if_pos hhook, hsub _ htime']
  · obtain ⟨h1, h2⟩ := hmore hdone
    rw [if_neg h1, if_neg h2, if_neg hdone]

theorem pass_inv {st : St} {skb : UInt64} {p : Passage} {hook : NfHook} {h : Headers} {ktime : UInt64}
    {tinfo : FilterTime} (hi : Inv st) (hskb : skb ≠ 0) (hf : Found st.netfilterTime skb h hook tinfo)
    (hinit : tinfo.init = p.tuple) (htime : tinfo.time = p.timeAt) (hnext : p.nextHook = some hook)
    (hs : Sound (p.times ++ [ktime / 1000])) :
    Inv (pass st skb p hook h ktime) := by
  obtain ⟨p', hp'⟩ : ∃ p', p' = { p with times := p.times ++ [ktime / 1000] } := ⟨_, rfl⟩
  obtain ⟨m', tinfo', hl, hinit', htime', hstore⟩ := storeNfTime_passage hskb hf hinit htime hnext hs hp'
  unfold pass
  rw [hstore, ← hp']
  by_cases hdone : p'.nextHook = none
  · simp only [if_pos hdone]
    refine ⟨records_update hi ?_ (BoundedMap.lookup_delete_self _ _), ?_⟩
    · intro j e
      rw [BoundedMap.lookup_delete_ne _ e, hl, if_neg e]
    · simp [hi.messages]
  · simp only [if_neg hdone]
    refine ⟨records_update hi (fun j e => (hl j).trans (if_neg e)) ?_, ?_⟩
    · exact ⟨hskb, by simp [hp'], by rw [hp']; exact hs, tinfo', (hl skb).trans (if_pos rfl), hinit', htime'⟩
    · simp [hi.messages]

/-- The record of a packet that passes its next hook is there, and only the first hook of
    a path creates one. -/
theorem found_of_live {m : NetfilterTime} {skb : UInt64} {p : Passage} (hp : Recorded m skb (some p))
    {hook : NfHook} (hnext : p.nextHook = some hook) (h : Headers) :
    ∃ tinfo, Found m skb h hook tinfo ∧ tinfo.init = p.tuple ∧ tinfo.time = p.timeAt := by
  obtain ⟨-, hne, -, tinfo, hl, hinit, htime⟩ := hp
  refine ⟨tinfo, .inr ⟨?_, hl⟩, hinit, htime⟩
  obtain ⟨path, tuple, times⟩ := p
  rcases path with _ | _ | _ <;> rcases times with _ | ⟨t0, _ | ⟨t1, _ | ⟨t2, _ | ⟨t3, ts⟩⟩⟩⟩ <;>
    simp [Passage.nextHook, Path.hooks] at hnext hne <;> subst hnext <;> decide

theorem step_inv {e : Ev} {st st' : St} (hi : Inv st) (hs : step e st = some st') : Inv st' := by
  cases e with
  | enter skb path h ktime =>
    simp only [step, Option.ite_none_right_eq_some] at hs
    obtain ⟨⟨hskb, hnone, hroom, h0⟩, hs⟩ := hs
    obtain ⟨hook, hhook, rfl⟩ := Option.map_eq_some_iff.mp hs
    have hfirst : hook = .ipRcv ∨ hook = .ipLocalOut := by
      cases path <;> cases hhook <;> decide
    have htimes : (freshTime h).time = (⟨path, getPktTuple h, []⟩ : Passage).timeAt := by
      funext k
      cases path <;> rfl
    have hl : st.netfilterTime.lookup skb = none := by
      have := hi.records skb
      rwa [hnone] at this
    exact pass_inv hi hskb (.inl ⟨hfirst, hl, hroom, rfl⟩) rfl htimes
      (by cases path <;> exact hhook) ⟨by simpa using h0, List.pairwise_singleton _ _⟩
  | next skb h ktime =>
    simp only [step] at hs
    split at hs
    · cases hs
    · rename_i p hp
      simp only [Option.ite_none_right_eq_some] at hs
      obtain ⟨hfol, hs⟩ := hs
      obtain ⟨hook, hhook, rfl⟩ := Option.map_eq_some_iff.mp hs
      have hrec := hp ▸ hi.records skb
      obtain ⟨hskb, hne, hsound, -⟩ := id hrec
      obtain ⟨tinfo, hf, hinit, htime⟩ := found_of_live hrec hhook h
      have h0 : ktime / 1000 ≠ 0 := by
        obtain ⟨t, ts, ht⟩ := List.exists_cons_of_ne_nil hne
        intro hz
        have hmem : t ∈ p.times := ht ▸ List.mem_cons_self
        have hle := UInt64.le_iff_toNat_le.mp (hfol t hmem).1
        rw [hz] at hle
        exact hsound.1 t hmem (UInt64.toNat_inj.mp (Nat.le_zero.mp hle))
      exact pass_inv hi hskb hf hinit htime hhook (sound_append hsound h0 hfol)

/-- The messages of a run are the ones `reported` gives for the packets that are done. -/
theorem messages_eq {st : St} (h : Run step anyEvent init st) : st.netfilterRb = st.finished.map reported :=
  (h.inv init_inv fun _ _ _ hi _ hs => step_inv hi hs).messages

theorem reported_eq_iff (p : Passage) : reported p = expected p ↔ p.path ≠ .forward := by
  obtain ⟨path, tuple, times⟩ := p
  cases path <;> simp [reported, expected, messageOf]

/-- A run classifies and measures every packet exactly if none that is done was
    forwarded. -/
theorem classified_iff {st : St} (h : Run step anyEvent init st) :
    Classified st ↔ ∀ p ∈ st.finished, p.path ≠ .forward := by
  rw [Classified, messages_eq h, List.map_inj_left]
  exact forall₂_congr fun p _ => reported_eq_iff p

def someHeaders : Headers := ⟨0x0100000a, 0x0200000a, 0x3500, 0x5000, 0, 0⟩

/-- A received and a sent packet, their hooks interleaved. -/
theorem both_classified :
    ∃ st, Run step anyEvent init st ∧ st.finished.map Passage.path = [.receive, .send] ∧ Classified st := by
  obtain ⟨st, hr, hs⟩ := run_of_exec_any step init
    [.enter 1 .receive someHeaders 5000, .enter 2 .send someHeaders 6000, .next 2 someHeaders 7000,
      .next 1 someHeaders 8000, .next 1 someHeaders 9000, .next 2 someHeaders 9500]
    (fun st => decide (st.finished.map Passage.path = [.receive, .send])) (by decide +kernel)
  have hpath := of_decide_eq_true hs
  refine ⟨st, hr, hpath, (classified_iff hr).mpr fun p hp => ?_⟩
  have hmem : p.path ∈ [Path.receive, Path.send] := hpath ▸ List.mem_map_of_mem hp
  intro hf
  rw [hf] at hmem
  exact absurd hmem (by decide)

theorem a_forwarded_packet_is_sent : ∃ st, Run step anyEvent init st ∧ ¬ Classified st := by
  obtain ⟨st, hr, hs⟩ := run_of_exec_any step init
    [.enter 1 .forward someHeaders 5000, .next 1 someHeaders 6000, .next 1 someHeaders 7000,
      .next 1 someHeaders 8000]
    (fun st => decide (st.finished.map Passage.path = [.forward])) (by decide +kernel)
  refine ⟨st, hr, fun hc => ?_⟩
  have hpath := of_decide_eq_true hs
  obtain ⟨p, hp⟩ := List.exists_mem_of_ne_nil st.finished (by
    intro he
    rw [he] at hpath
    cases hpath)
  have hf : p.path ∈ [Path.forward] := hpath ▸ List.mem_map_of_mem hp
  exact (classified_iff hr).mp hc p hp (List.mem_singleton.mp hf)

end Ksight.Netwatcher

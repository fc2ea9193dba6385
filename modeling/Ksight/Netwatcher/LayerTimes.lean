/-
  Ksight.Netwatcher.LayerTimes — the layer delays of packets
  (src/net/netwatcher/bpf/packet.bpf.h, with `-t`).

  The probes of any packets come in any order, each packet passing those of its path in
  turn but not necessarily all of them. Packets may have the same tuple, and a sent packet
  another one from the socket than from its headers.

  The law (`Owned`): the three differences of every report are those of the times at which
  the packet reported passed the probes of its path, and none is negative. `owned_of_run`:
  it holds in every run in which a report is made only from an entry whose three times
  were all noted by its packet (`OwnEntry`). An entry is kept after its report and a probe
  that does not run leaves 0 in it, so a retransmission in between wraps a difference
  around (`retransmission_wraps`), and a packet that missed a probe is reported with the
  difference to 0 (`missed_probe_is_reported`).
-/

import Mathlib.Logic.Function.Basic
import Ksight.Lib.Run
import Ksight.Netwatcher.Packet

namespace Ksight.Netwatcher.Packet

open Ksight.Lib

/-- A report, with the packet it was made for and the time of its last probe. -/
structure Report where
  pkt : Nat
  dir : Dir
  now : UInt64
  packet : PackT

structure St where
  timestamps : Timestamps
  clock : UInt64
  /-- When each packet passed the probe of a layer, in microseconds. -/
  passed : Nat × Dir × Layer → Option UInt64
  /-- The packet that noted each time of an entry last, since the entry was made. -/
  noter : PacketTuple → Layer → Option (Nat × Dir)
  reports : List Report

def init : St := ⟨.empty, 0, fun _ => none, fun _ _ => none, []⟩

inductive Ev where
  | ethTypeTrans (pkt : Nat) (h : Headers) (victim : PacketTuple) (ktime : UInt64)
  | ipRcvCore (pkt : Nat) (h : Headers) (ktime : UInt64)
  | tcpV4Rcv (pkt : Nat) (h : Headers) (ktime : UInt64)
  | tcpV4DoRcv (pkt : Nat) (h : Headers) (conn : Option UInt64)
  | skbCopyDatagramIter (pkt : Nat) (h : Headers) (payload : List UInt8) (reserved : Bool) (ktime : UInt64)
  | tcpSendmsg (pkt : Nat) (sk : TcpSock) (sock : UInt64) (userData : List UInt8) (victim : PacketTuple)
      (ktime : UInt64)
  | ipQueueXmit (pkt : Nat) (sk : TcpSock) (seq ack : UInt32) (ktime : UInt64)
  | devQueueXmit (pkt : Nat) (h : Headers) (ktime : UInt64)
  | devHardStartXmit (pkt : Nat) (h : Headers) (reserved : Bool) (ktime : UInt64)

/-- The place of a layer on the path. -/
def Dir.rank : Dir → Layer → Nat
  | _, .ip => 1
  | .rx, .mac => 0
  | .rx, .tran => 2
  | .tx, .tran => 0
  | .tx, .mac => 2

/-- The packet has passed neither the probe of this layer nor a later one. -/
def Ahead (st : St) (pkt : Nat) (d : Dir) (l : Layer) : Prop :=
  ∀ k ∈ [Layer.mac, .ip, .tran], d.rank l ≤ d.rank k → st.passed (pkt, d, k) = none

instance (st : St) (pkt : Nat) (d : Dir) (l : Layer) : Decidable (Ahead st pkt d l) :=
  List.decidableBAll _ _

/-- A new entry has not been noted. -/
def St.noterOf (st : St) (t : PacketTuple) (l : Layer) : Option (Nat × Dir) :=
  (st.timestamps.lookup t).bind fun _ => st.noter t l

/-- The packet passes the probe of a layer, which leaves `m`. -/
def pass (pkt : Nat) (d : Dir) (l : Layer) (t : PacketTuple) (ktime : UInt64) (m : Timestamps) (st : St) :
    Option St :=
  if st.clock ≤ ktime ∧ Ahead st pkt d l then
    some {
      timestamps := m
      clock := ktime
      passed := Function.update st.passed (pkt, d, l) (some (ktime / 1000))
      noter := Function.update st.noter t (Function.update (st.noterOf t) l (some (pkt, d)))
      reports := st.reports }
  else none

/-- The packet passes the last probe of its path. -/
def report (pkt : Nat) (d : Dir) (ktime : UInt64) (r : Option PackT × Timestamps) (st : St) : Option St :=
  if st.clock ≤ ktime then
    some { st with
      timestamps := r.2
      clock := ktime
      reports := st.reports ++ (r.1.map fun packet => ⟨pkt, d, ktime / 1000, packet⟩).toList }
  else none

variable (httpInfo : Bool)

/-- The connections are tracked: a sender's socket is in `conns_info`. -/
def step : Ev → St → Option St
  | .ethTypeTrans pkt h victim ktime, st =>
    pass pkt .rx .mac (getPktTuple h) ktime (ethTypeTrans victim h ktime st.timestamps) st
  | .ipRcvCore pkt h ktime, st =>
    pass pkt .rx .ip (getPktTuple h) ktime (ipRcvCore ⟨true, httpInfo⟩ h ktime st.timestamps) st
  | .tcpV4Rcv pkt h ktime, st =>
    pass pkt .rx .tran (getPktTuple h) ktime (tcpV4Rcv ⟨true, httpInfo⟩ h ktime st.timestamps) st
  | .tcpV4DoRcv _ h conn, st => some { st with timestamps := tcpV4DoRcv conn h st.timestamps }
  | .skbCopyDatagramIter pkt h payload reserved ktime, st =>
    report pkt .rx ktime (skbCopyDatagramIter ⟨true, httpInfo⟩ h ktime payload reserved st.timestamps) st
  | .tcpSendmsg pkt sk sock userData victim ktime, st =>
    pass pkt .tx .tran (sockTuple sk sk.sndNxt sk.rcvNxt) ktime
      (tcpSendmsg ⟨true, httpInfo⟩ victim (some sock) sk ktime userData st.timestamps) st
  | .ipQueueXmit pkt sk seq ack ktime, st =>
    pass pkt .tx .ip (sockTuple sk (bswap32 seq) (bswap32 ack)) ktime
      (ipQueueXmit ⟨true, httpInfo⟩ sk seq ack ktime st.timestamps) st
  | .devQueueXmit pkt h ktime, st =>
    pass pkt .tx .mac (getPktTuple h) ktime (devQueueXmit ⟨true, httpInfo⟩ h ktime st.timestamps) st
  | .devHardStartXmit pkt h reserved ktime, st =>
    report pkt .tx ktime (devHardStartXmit ⟨true, httpInfo⟩ h ktime reserved st.timestamps) st

/-! ## The law -/

/-- The differences of a report are those of its packet, and in the order of time. -/
def Own (st : St) (r : Report) : Prop :=
  ∃ a b c, st.passed (r.pkt, r.dir, r.dir.first) = some a ∧ st.passed (r.pkt, r.dir, .ip) = some b ∧
    st.passed (r.pkt, r.dir, r.dir.last) = some c ∧ a ≤ b ∧ b ≤ c ∧ c ≤ r.now ∧
    r.packet.at r.dir.first = some (b - a) ∧ r.packet.at .ip = some (c - b) ∧
    r.packet.at r.dir.last = some (r.now - c)

def Owned (st : St) : Prop := ∀ r ∈ st.reports, Own st r

/-- The times of the entry that is reported from were all noted by this packet. -/
def NotedBy (st : St) (pkt : Nat) (d : Dir) (t : PacketTuple) : Prop :=
  ∀ i ∈ st.timestamps.lookup t, i.sk ≠ 0 → ∀ l ∈ [Layer.mac, .ip, .tran], st.noter t l = some (pkt, d)

/-- The condition: a report is made from an entry whose three times its own packet noted. -/
def OwnEntry : Ev → St → Prop
  | .skbCopyDatagramIter pkt h _ reserved _, st => reserved = true → NotedBy st pkt .rx (getPktTuple h)
  | .devHardStartXmit pkt h reserved _, st => reserved = true → NotedBy st pkt .tx (getPktTuple h)
  | _, _ => True

instance (st : St) (pkt : Nat) (d : Dir) (t : PacketTuple) : Decidable (NotedBy st pkt d t) :=
  inferInstanceAs (Decidable (∀ _ ∈ _, _ ≠ _ → ∀ _ ∈ [_, _, _], _ = _))

instance : ∀ (e : Ev) (st : St), Decidable (OwnEntry e st)
  | .skbCopyDatagramIter .., _ => inferInstanceAs (Decidable (_ = _ → NotedBy ..))
  | .devHardStartXmit .., _ => inferInstanceAs (Decidable (_ = _ → NotedBy ..))
  | .ethTypeTrans .., _ => inferInstanceAs (Decidable True)
  | .ipRcvCore .., _ => inferInstanceAs (Decidable True)
  | .tcpV4Rcv .., _ => inferInstanceAs (Decidable True)
  | .tcpV4DoRcv .., _ => inferInstanceAs (Decidable True)
  | .tcpSendmsg .., _ => inferInstanceAs (Decidable True)
  | .ipQueueXmit .., _ => inferInstanceAs (Decidable True)
  | .devQueueXmit .., _ => inferInstanceAs (Decidable True)

/-! ## The entries -/

structure Inv (st : St) : Prop where
  /-- An entry has the times of the packets that noted it. -/
  noted : ∀ t, ∀ i ∈ st.timestamps.lookup t, ∀ l pkt d, st.noter t l = some (pkt, d) →
    st.passed (pkt, d, l) = some (i.at l)
  past : ∀ x t, st.passed x = some t → t ≤ st.clock / 1000
  ordered : ∀ pkt d k l s t, d.rank k ≤ d.rank l → st.passed (pkt, d, k) = some s →
    st.passed (pkt, d, l) = some t → s ≤ t
  owned : Owned st

theorem init_inv : Inv init where
  noted _ _ hi := by simp [init] at hi
  past _ _ h := by cases h
  ordered _ _ _ _ _ _ _ h := by cases h
  owned _ hr := by cases hr

theorem ahead_iff {st : St} {pkt : Nat} {d : Dir} {l : Layer} :
    Ahead st pkt d l ↔ ∀ k, d.rank l ≤ d.rank k → st.passed (pkt, d, k) = none := by
  constructor
  · intro h k
    exact h k (by cases k <;> simp)
  · exact fun h k _ => h k

/-- A packet passes the probe of a layer, which notes its time in the entry. -/
theorem pass_inv {st st' : St} {pkt : Nat} {d : Dir} {l : Layer} {t : PacketTuple} {ktime : UInt64}
    {m : Timestamps} (hi : Inv st) (hm : Noted t l (ktime / 1000) st.timestamps m)
    (h : pass pkt d l t ktime m st = some st') :
    Inv st' := by
  simp only [pass, Option.ite_none_right_eq_some, Option.some.injEq] at h
  obtain ⟨⟨hclock, hahead⟩, rfl⟩ := h
  rw [ahead_iff] at hahead
  have hnone : st.passed (pkt, d, l) = none := hahead l le_rfl
  -- the time of a probe passed before stays
  have hkeep : ∀ x v, st.passed x = some v →
      Function.update st.passed (pkt, d, l) (some (ktime / 1000)) x = some v := by
    intro x v hx
    rw [Function.update_of_ne, hx]
    intro e
    rw [e, hnone] at hx
    cases hx
  constructor
  · intro t' i' hi' k q e hq
    by_cases ht : t' = t
    · subst ht
      by_cases hk : k = l
      · subst hk
        obtain ⟨rfl, rfl⟩ : pkt = q ∧ d = e := by simpa using hq
        rw [(hm.self i' hi').1]
        exact Function.update_self ..
      · simp only [Function.update_self, Function.update_of_ne hk, St.noterOf] at hq
        obtain ⟨i, hi₀, hq⟩ := Option.bind_eq_some_iff.mp hq
        rw [(hm.self i' hi').2 i hi₀ k hk]
        exact hkeep _ _ (hi.noted t' i hi₀ k q e hq)
    · simp only [Function.update_of_ne ht] at hq
      exact hkeep _ _ (hi.noted t' i' (hm.others t' ht i' hi') k q e hq)
  · intro x v hx
    by_cases e : x = (pkt, d, l)
    · subst e
      simp only [Function.update_self, Option.some.injEq] at hx
      exact hx ▸ UInt64.le_refl _
    · simp only [Function.update_of_ne e] at hx
      exact UInt64.le_trans (hi.past x v hx) (div_mono hclock)
  · intro q e k j s v hr hs hv
    dsimp only at hs hv
    by_cases e₂ : (q, e, j) = (pkt, d, l)
    · cases e₂
      simp only [Function.update_self, Option.some.injEq] at hv
      subst hv
      by_cases e₁ : k = l
      · subst e₁
        simp only [Function.update_self, Option.some.injEq] at hs
        exact hs ▸ UInt64.le_refl _
      · rw [Function.update_of_ne (by simpa using e₁)] at hs
        exact UInt64.le_trans (hi.past _ s hs) (div_mono hclock)
    · rw [Function.update_of_ne e₂] at hv
      by_cases e₁ : (q, e, k) = (pkt, d, l)
      · cases e₁
        rw [hahead j hr] at hv
        cases hv
      · rw [Function.update_of_ne e₁] at hs
        exact hi.ordered q e k j s v hr hs hv
  · intro r hr
    obtain ⟨a, b, c, ha, hb, hc, h⟩ := hi.owned r hr
    exact ⟨a, b, c, hkeep _ _ ha, hkeep _ _ hb, hkeep _ _ hc, h⟩

theorem Inv.untimed {st : St} {m : Timestamps} (hi : Inv st) (hm : Untimed st.timestamps m) :
    Inv { st with timestamps := m } := by
  refine ⟨fun t i' hi' l q e hq => ?_, hi.past, hi.ordered, hi.owned⟩
  obtain ⟨i, hi₀, hat⟩ := hm t i' hi'
  rw [hat l]
  exact hi.noted t i hi₀ l q e hq

/-- A report from an entry that its packet noted. -/
theorem own_of_notedBy {st : St} {pkt : Nat} {d : Dir} {t : PacketTuple} {i : KtimeInfo} {ktime : UInt64}
    {packet : PackT} (hi : Inv st) (hn : NotedBy st pkt d t) (ht : i ∈ st.timestamps.lookup t) (hsk : i.sk ≠ 0)
    (hclock : st.clock ≤ ktime) (hd : Differences d i (ktime / 1000) packet) :
    Own st ⟨pkt, d, ktime / 1000, packet⟩ := by
  have hpassed : ∀ l, st.passed (pkt, d, l) = some (i.at l) := fun l =>
    hi.noted t i ht l pkt d (hn i ht hsk l (by cases l <;> simp))
  refine ⟨i.at d.first, i.at .ip, i.at d.last, hpassed _, hpassed _, hpassed _, ?_, ?_, ?_, hd⟩
  · exact hi.ordered pkt d d.first .ip _ _ (by cases d <;> decide) (hpassed _) (hpassed _)
  · exact hi.ordered pkt d .ip d.last _ _ (by cases d <;> decide) (hpassed _) (hpassed _)
  · exact UInt64.le_trans (hi.past _ _ (hpassed _)) (div_mono hclock)

theorem report_inv {st st' : St} {pkt : Nat} {d : Dir} {t : PacketTuple} {ktime : UInt64}
    {r : Option PackT × Timestamps} (hi : Inv st) (hm : Untimed st.timestamps r.2)
    (hr : ∀ packet ∈ r.1, NotedBy st pkt d t ∧
      ∃ i ∈ st.timestamps.lookup t, i.sk ≠ 0 ∧ Differences d i (ktime / 1000) packet)
    (h : report pkt d ktime r st = some st') : Inv st' := by
  simp only [report, Option.ite_none_right_eq_some, Option.some.injEq] at h
  obtain ⟨hclock, rfl⟩ := h
  have hu := hi.untimed hm
  refine ⟨hu.noted, fun x v hx => UInt64.le_trans (hi.past x v hx) (div_mono hclock), hi.ordered, ?_⟩
  intro q hq
  rcases List.mem_append.mp hq with hq | hq
  · exact hi.owned q hq
  · obtain ⟨packet, hp, rfl⟩ := Option.map_eq_some_iff.mp (Option.mem_toList.mp hq)
    obtain ⟨hn, i, ht, hsk, hd⟩ := hr packet hp
    have hown := own_of_notedBy hi hn ht hsk hclock hd
    exact hown

variable {httpInfo}

theorem step_inv {e : Ev} {st st' : St} (hi : Inv st) (ho : OwnEntry e st) (h : step httpInfo e st = some st') :
    Inv st' := by
  cases e with
  | ethTypeTrans pkt hd victim ktime => exact pass_inv hi (ethTypeTrans_noted victim hd ktime _) h
  | ipRcvCore pkt hd ktime => exact pass_inv hi (ipRcvCore_noted rfl hd ktime _) h
  | tcpV4Rcv pkt hd ktime => exact pass_inv hi (tcpV4Rcv_noted rfl hd ktime _) h
  | tcpV4DoRcv pkt hd conn =>
    cases h
    exact hi.untimed (tcpV4DoRcv_untimed conn hd _)
  | skbCopyDatagramIter pkt hd payload reserved ktime =>
    have hs := skbCopyDatagramIter_spec (o := ⟨true, httpInfo⟩) rfl hd ktime payload reserved st.timestamps
    exact report_inv hi hs.1 (fun packet hp => ⟨ho (hs.2 packet hp).1, (hs.2 packet hp).2⟩) h
  | tcpSendmsg pkt sk sock userData victim ktime =>
    exact pass_inv hi (tcpSendmsg_noted _ victim sock sk ktime userData _) h
  | ipQueueXmit pkt sk seq ack ktime => exact pass_inv hi (ipQueueXmit_noted rfl sk seq ack ktime _) h
  | devQueueXmit pkt hd ktime => exact pass_inv hi (devQueueXmit_noted rfl hd ktime _) h
  | devHardStartXmit pkt hd reserved ktime =>
    have hs := devHardStartXmit_spec (o := ⟨true, httpInfo⟩) rfl hd ktime reserved st.timestamps
    exact report_inv hi hs.1 (fun packet hp => ⟨ho (hs.2 packet hp).1, (hs.2 packet hp).2⟩) h

variable (httpInfo)

/-- In a run whose reports are made from entries that their packets noted, the differences
    of every report are those of its packet. -/
theorem owned_of_run {st : St} (h : Run (step httpInfo) OwnEntry init st) : Owned st :=
  (h.inv init_inv fun _ _ _ hi ho hs => step_inv hi ho hs).owned

/-! ## A few packets -/

/-- The headers of what is sent to port 80 of 10.0.0.1, and the socket it is sent from. -/
def sentHeaders : Headers := ⟨0x0200000a, 0x0100000a, 0x3500, 0x5000, 0, 0⟩

def senderSock : TcpSock := ⟨0x0200000a, 0x0100000a, 53, 0x5000, 0, 0⟩

/-- The differences of the mac, the ip and the transport layer. -/
def St.differences (st : St) : List (List (Option UInt64)) :=
  st.reports.map fun r => [r.packet.macTime, r.packet.ipTime, r.packet.tranTime]

/-- A received and a sent packet, their probes interleaved. -/
theorem both_owned :
    ∃ st, Run (step false) OwnEntry init st ∧
      st.differences = [[some 2, some 3, some 6], [some 8, some 1, some 4]] ∧ Owned st := by
  obtain ⟨st, hr, hs⟩ := run_of_execIf_any (step false) OwnEntry init
    [.ethTypeTrans 1 someHeaders zeroTuple 1000, .tcpSendmsg 2 senderSock 8 [] zeroTuple 2000,
      .ipRcvCore 1 someHeaders 3000, .ipQueueXmit 2 senderSock 0 0 6000, .tcpV4Rcv 1 someHeaders 6000,
      .tcpV4DoRcv 1 someHeaders (some 9), .devQueueXmit 2 sentHeaders 7000,
      .skbCopyDatagramIter 1 someHeaders [] true 12000, .devHardStartXmit 2 sentHeaders true 15000]
    (fun st => decide (st.differences = [[some 2, some 3, some 6], [some 8, some 1, some 4]])) (by decide +kernel)
  exact ⟨st, hr, of_decide_eq_true hs, owned_of_run false hr⟩

/-- A retransmission of packet 1 comes in before 1 is read: the time of its first probe is
    subtracted from that of the second one of packet 1. -/
theorem retransmission_wraps : ∃ st, Run (step false) anyEvent init st ∧ ¬ Owned st := by
  obtain ⟨st, hr, hs⟩ := run_of_exec_any (step false) init
    [.ethTypeTrans 1 someHeaders zeroTuple 1000, .ipRcvCore 1 someHeaders 2000, .tcpV4Rcv 1 someHeaders 3000,
      .tcpV4DoRcv 1 someHeaders (some 9), .ethTypeTrans 2 someHeaders zeroTuple 4000,
      .skbCopyDatagramIter 1 someHeaders [] true 5000]
    (fun st => st.reports.any fun r => decide (r.pkt = 1 ∧ r.dir = .rx ∧ r.packet.macTime = some (-2)) &&
      decide (st.passed (1, .rx, .mac) = some 1 ∧ st.passed (1, .rx, .ip) = some 2)) (by decide +kernel)
  obtain ⟨r, hmem, ht⟩ := List.any_eq_true.mp hs
  simp only [Bool.and_eq_true, decide_eq_true_eq] at ht
  obtain ⟨⟨hp, hd, hmac⟩, h1, h2⟩ := ht
  refine ⟨st, hr, fun ho => ?_⟩
  obtain ⟨a, b, c, ha, hb, -, -, -, -, hm, -, -⟩ := ho r hmem
  rw [hp, hd] at ha hb
  rw [hd] at hm
  have hm' : some (b - a) = some (-2) := hm.symm.trans hmac
  rw [show a = 1 from Option.some.inj (ha.symm.trans h1), show b = 2 from Option.some.inj (hb.symm.trans h2)] at hm'
  exact absurd hm' (by decide)

/-- The probe of the ip layer does not run for the packet. -/
theorem missed_probe_is_reported : ∃ st, Run (step false) anyEvent init st ∧ ¬ Owned st := by
  obtain ⟨st, hr, hs⟩ := run_of_exec_any (step false) init
    [.ethTypeTrans 1 someHeaders zeroTuple 1000, .tcpV4Rcv 1 someHeaders 3000,
      .tcpV4DoRcv 1 someHeaders (some 9), .skbCopyDatagramIter 1 someHeaders [] true 5000]
    (fun st => st.reports.any fun r => decide (r.pkt = 1 ∧ r.dir = .rx) &&
      decide (st.passed (1, .rx, .ip) = none)) (by decide +kernel)
  obtain ⟨r, hmem, ht⟩ := List.any_eq_true.mp hs
  simp only [Bool.and_eq_true, decide_eq_true_eq] at ht
  obtain ⟨⟨hp, hd⟩, h1⟩ := ht
  refine ⟨st, hr, fun ho => ?_⟩
  obtain ⟨a, b, c, -, hb, -⟩ := ho r hmem
  rw [hp, hd, h1] at hb
  cases hb

end Ksight.Netwatcher.Packet

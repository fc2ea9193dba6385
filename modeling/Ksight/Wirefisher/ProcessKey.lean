/-
  Ksight.Wirefisher.ProcessKey — the process an ingress UDP packet is charged to
  (src/net/wirefisher/bpf/wirefisher.bpf.c: `security_socket_recvmsg`, `netfilter_hook`;
  src/process_module.cpp: `setup_local_ip_map`).

  A host has one address and a set of UDP sockets, no two bound to one address and port.
  `local_ip_map` holds the address as `inet_addr` gives it, in network order, which is
  also the order of `skc_rcv_saddr`; `skc_num` is in host order. The owners of the sockets
  call recvmsg in any order, and `tuple_map` has room.

  The law (`Attributed`): a packet to an address and port is charged to the process that
  last called recvmsg on the socket bound there, and to none if none has. The probe swaps
  the wildcard's address twice and a specific one once, so the first comes out in network
  order, as the hook looks it up, and the second in host order. `attributed`: the law holds in every
  run whose calls are on wildcard sockets or on addresses that read the same in both
  orders (`SameInBoth`); `unattributed`: the first other call breaks it. Its entry belongs
  to the address read backwards, whose packets it takes (`backwards_packet_is_taken`).
-/

import Mathlib.Data.Finset.Insert
import Ksight.Lib.Run
import Ksight.Wirefisher.ProcessHook

namespace Ksight.Wirefisher.Process

open Ksight.Lib

/-- A UDP socket: the address of its `struct sock`, and what it is bound to in host order,
    the wildcard being 0. -/
structure UdpSocket where
  sk : UInt64
  ip : UInt32
  port : UInt16
  deriving DecidableEq

def UdpSocket.sock (s : UdpSocket) : Sock := ⟨s.sk, ipprotoUdp.toUInt16, bswap32 s.ip, s.port⟩

/-- The address the packets of the socket have. -/
def UdpSocket.address (localIp : UInt32) (s : UdpSocket) : UInt32 := if s.ip = 0 then localIp else s.ip

structure Host where
  localIp : UInt32
  sockets : Finset UdpSocket
  bound : ∀ s ∈ sockets, ∀ t ∈ sockets, s.address localIp = t.address localIp → s.port = t.port → s = t

structure St where
  maps : Maps
  /-- The process that last called recvmsg on the socket bound there. -/
  receiver : UInt32 × UInt16 → Option UInt32

variable (h : Host)

/-- What `setup_local_ip_map` writes. -/
def init : St :=
  ⟨⟨.empty, .empty, (BoundedMap.empty.update 0 (bswap32 h.localIp)).getD .empty⟩, fun _ => none⟩

structure Ev where
  socket : UdpSocket
  proc : ProcInfo
  victims : Victims

/-- `tuple_map` has room for the key. -/
def RoomFor (m : Maps) (s : UdpSocket) : Prop :=
  tupleKey (m.localIpMap.lookup 0) s.sock ∈ m.tupleMap.keys ∨ m.tupleMap.keys.card < maxProcs

instance (m : Maps) (s : UdpSocket) : Decidable (RoomFor m s) := inferInstanceAs (Decidable (_ ∨ _))

/-- A call of recvmsg. -/
def step (e : Ev) (st : St) : Option St :=
  if e.socket ∈ h.sockets ∧ RoomFor st.maps e.socket then
    some {
      maps := securitySocketRecvmsg e.proc e.victims (some e.socket.sock) st.maps
      receiver := Function.update st.receiver (e.socket.address h.localIp, e.socket.port) (some e.proc.pid) }
  else none

/-! ## The law -/

def Attributed (st : St) : Prop :=
  ∀ skb ip port sk, Addressed skb ip port →
    (findProc ⟨nfInetLocalIn, skb, sk⟩ st.maps).map ProcInfo.pid = st.receiver (ip, port)

/-- The condition: the socket is bound to the wildcard, or to an address that reads the
    same in both byte orders. -/
def SameInBoth (e : Ev) (_ : St) : Prop := e.socket.ip = 0 ∨ bswap32 e.socket.ip = e.socket.ip

instance (e : Ev) (st : St) : Decidable (SameInBoth e st) := inferInstanceAs (Decidable (_ ∨ _))

/-! ## The invariant -/

structure Inv (st : St) : Prop where
  localIp : st.maps.localIpMap.lookup 0 = some (bswap32 h.localIp)
  keyed : ∀ ip port,
    (st.maps.tupleMap.lookup ⟨bswap32 ip, bswap16 port, ipprotoUdp⟩).map ProcInfo.pid = st.receiver (ip, port)
  /-- Only the sockets of the host receive. -/
  bound : ∀ ip port, st.receiver (ip, port) ≠ none →
    ∃ s ∈ h.sockets, s.address h.localIp = ip ∧ s.port = port ∧ (s.ip = 0 ∨ bswap32 s.ip = s.ip)

variable {h}

theorem attributed_of_inv {st : St} (hi : Inv h st) : Attributed st := by
  intro skb ip port sk ha
  rw [findProc_udp ha, hi.keyed]

theorem init_inv : Inv h (init h) := by
  refine ⟨rfl, ?_, fun _ _ hn => absurd rfl hn⟩
  intro ip port
  simp [init]

/-- What a call writes, and where. -/
theorem lookup_recvmsg {st : St} {e : Ev} (hroom : RoomFor st.maps e.socket) (k : NetGroup) :
    (securitySocketRecvmsg e.proc e.victims (some e.socket.sock) st.maps).tupleMap.lookup k =
      if k = tupleKey (st.maps.localIpMap.lookup 0) e.socket.sock then some e.proc
      else st.maps.tupleMap.lookup k :=
  BoundedMap.lookup_updateLru hroom _ _ _

theorem bswap32_eq_zero {x : UInt32} : bswap32 x = 0 ↔ x = 0 := by
  constructor
  · intro hx
    have := congrArg bswap32 hx
    rwa [bswap32_bswap32] at this
  · intro hx
    subst hx
    decide

/-- The key of a call: the wildcard's address is swapped twice, a specific one once. -/
theorem tupleKey_sock (localIp : UInt32) (s : UdpSocket) :
    tupleKey (some (bswap32 localIp)) s.sock =
      ⟨if s.ip = 0 then bswap32 localIp else s.ip, bswap16 s.port, ipprotoUdp⟩ := by
  by_cases hw : s.ip = 0
  · simp [tupleKey, UdpSocket.sock, hw, bswap32_eq_zero]
  · simp [tupleKey, UdpSocket.sock, hw, bswap32_eq_zero]

/-- A call that meets the condition writes under the key of its socket's packets. -/
theorem tupleKey_of_same (localIp : UInt32) {s : UdpSocket} (hs : s.ip = 0 ∨ bswap32 s.ip = s.ip) :
    tupleKey (some (bswap32 localIp)) s.sock =
      ⟨bswap32 (s.address localIp), bswap16 s.port, ipprotoUdp⟩ := by
  rw [tupleKey_sock, UdpSocket.address]
  by_cases hw : s.ip = 0
  · rw [if_pos hw, if_pos hw]
  · rw [if_neg hw, if_neg hw, hs.resolve_left hw]

theorem netGroup_eq_iff {a b : UInt32} {p q : UInt16} :
    (⟨bswap32 a, bswap16 p, ipprotoUdp⟩ : NetGroup) = ⟨bswap32 b, bswap16 q, ipprotoUdp⟩ ↔ (a, p) = (b, q) := by
  simp only [NetGroup.mk.injEq, and_true, Prod.mk.injEq]
  constructor
  · intro h
    obtain ⟨ha, hp⟩ := h
    have ha := congrArg bswap32 ha
    have hp := congrArg bswap16 hp
    rw [bswap32_bswap32, bswap32_bswap32] at ha
    rw [bswap16_bswap16, bswap16_bswap16] at hp
    exact ⟨ha, hp⟩
  · intro h
    obtain ⟨rfl, rfl⟩ := h
    exact ⟨rfl, rfl⟩

theorem step_inv {e : Ev} {st st' : St} (hi : Inv h st) (hs : SameInBoth e st) (hstep : step h e st = some st') :
    Inv h st' := by
  unfold step at hstep
  split at hstep
  · rename_i hg
    obtain ⟨hmem, hroom⟩ := hg
    cases hstep
    refine ⟨hi.localIp, ?_, ?_⟩
    · intro ip port
      show (BoundedMap.lookup _ _).map _ = _
      rw [lookup_recvmsg hroom, hi.localIp, tupleKey_of_same h.localIp hs]
      by_cases hk : (ip, port) = (e.socket.address h.localIp, e.socket.port)
      · rw [if_pos (netGroup_eq_iff.mpr hk), hk]
        exact (Function.update_self _ _ st.receiver).symm
      · rw [if_neg (fun he => hk (netGroup_eq_iff.mp he)), hi.keyed]
        exact (Function.update_of_ne hk _ st.receiver).symm
    · intro ip port hn
      by_cases hk : (ip, port) = (e.socket.address h.localIp, e.socket.port)
      · cases hk
        exact ⟨e.socket, hmem, rfl, rfl, hs⟩
      · refine hi.bound ip port ?_
        simpa [Function.update_of_ne hk] using hn
  · cases hstep

/-- In a run whose calls meet the condition every packet is charged to its receiver. -/
theorem attributed {st : St} (hr : Run (step h) SameInBoth (init h) st) : Attributed st :=
  attributed_of_inv (hr.inv init_inv fun _ _ _ hi hs hstep => step_inv hi hs hstep)

/-- A host at 10.0.0.1 with a wildcard socket at port 53 and one at 10.0.0.2:5353. -/
def twoSockets : Host where
  localIp := 0x0a000001
  sockets := {⟨1, 0, 53⟩, ⟨2, 0x0a000002, 5353⟩}
  bound := by decide

def call (s : UdpSocket) (pid : UInt32) : Ev := ⟨s, ⟨pid, []⟩, ⟨0, ⟨0, 0, 0⟩⟩⟩

theorem wildcard_attributed :
    ∃ st, Run (step twoSockets) SameInBoth (init twoSockets) st ∧
      st.receiver (0x0a000001, 53) = some 7 ∧ Attributed st := by
  obtain ⟨st, hr, hs⟩ := run_of_execIf_any (step twoSockets) SameInBoth (init twoSockets)
    [call ⟨1, 0, 53⟩ 6, call ⟨1, 0, 53⟩ 7]
    (fun st => decide (st.receiver (0x0a000001, 53) = some 7)) (by decide +kernel)
  exact ⟨st, hr, of_decide_eq_true hs, attributed hr⟩

/-! ## Every other call -/

theorem addressed_packet (ip : UInt32) (port : UInt16) :
    Addressed (packet ip port ipprotoUdp 28) ip port :=
  have hc : Carries ipprotoUdp 28 := .inl ⟨rfl, by decide⟩
  ⟨_, _, ipHdr_packet hc, rfl, (by decide : (5 : UInt8) ≤ 5), rfl, udpHdr_packet hc, rfl, rfl⟩

/-- The first call that does not meet the condition breaks the law. -/
theorem unattributed {st st' : St} {e : Ev} (hr : Run (step h) SameInBoth (init h) st)
    (hs : ¬ SameInBoth e st) (hstep : step h e st = some st') :
    ¬ Attributed st' := by
  have hi : Inv h st := hr.inv init_inv fun _ _ _ hi hs hstep => step_inv hi hs hstep
  obtain ⟨hw, hrev⟩ := not_or.mp hs
  have haddr : e.socket.address h.localIp = e.socket.ip := if_neg hw
  unfold step at hstep
  split at hstep
  · rename_i hg
    obtain ⟨hmem, hroom⟩ := hg
    cases hstep
    intro ha
    have hv := ha _ _ _ 0 (addressed_packet e.socket.ip e.socket.port)
    rw [findProc_udp (addressed_packet _ _)] at hv
    have hkey : (⟨bswap32 e.socket.ip, bswap16 e.socket.port, ipprotoUdp⟩ : NetGroup) ≠
        tupleKey (st.maps.localIpMap.lookup 0) e.socket.sock := by
      rw [hi.localIp, tupleKey_sock, if_neg hw]
      simpa using hrev
    -- the socket has no receiver yet, for no other is bound there
    have hnone : st.receiver (e.socket.ip, e.socket.port) = none := by
      by_contra hn
      obtain ⟨s, hsm, hsa, hsp, hsame⟩ := hi.bound _ _ hn
      have := h.bound s hsm e.socket hmem (hsa.trans haddr.symm) hsp
      subst this
      exact hs hsame
    have hl := lookup_recvmsg (e := e) hroom ⟨bswap32 e.socket.ip, bswap16 e.socket.port, ipprotoUdp⟩
    rw [if_neg hkey] at hl
    have hold := hi.keyed e.socket.ip e.socket.port
    rw [hnone, ← hl, hv, haddr] at hold
    simp at hold
  · cases hstep

/-- 10.0.0.2 backwards is 2.0.0.10. -/
def mirroredSockets : Host where
  localIp := 0x0a000001
  sockets := {⟨1, 0x0a000002, 53⟩, ⟨2, 0x0200000a, 53⟩}
  bound := by decide

/-- Process 6 receives on 10.0.0.2:53 and process 7 on 2.0.0.10:53; a packet to 10.0.0.2
    is charged to process 7. -/
theorem backwards_packet_is_taken :
    ∃ st, Run (step mirroredSockets) anyEvent (init mirroredSockets) st ∧ ¬ Attributed st := by
  obtain ⟨st, hr, hs⟩ := run_of_exec_any (step mirroredSockets) (init mirroredSockets)
    [call ⟨1, 0x0a000002, 53⟩ 6, call ⟨2, 0x0200000a, 53⟩ 7]
    (fun st => decide (st.receiver (0x0a000002, 53) = some 6 ∧
      (findProc ⟨nfInetLocalIn, packet 0x0a000002 53 ipprotoUdp 28, 0⟩ st.maps).map ProcInfo.pid = some 7))
    (by decide +kernel)
  obtain ⟨h6, h7⟩ := of_decide_eq_true hs
  refine ⟨st, hr, fun ha => ?_⟩
  have := ha _ _ _ 0 (addressed_packet 0x0a000002 53)
  rw [h6, h7] at this
  cases this

end Ksight.Wirefisher.Process

/-
  Ksight.Netwatcher.Frame — the tuple of a received packet, as its bytes are
  (src/net/netwatcher/bpf/packet.bpf.h: `__eth_type_trans`, `__ip_rcv_core`,
  `__ip6_rcv_core`, `__tcp_v4_rcv`, `__tcp_v6_rcv`; bpf/common.bpf.h: `struct packet_tuple`,
  `skb_to_tcphdr`, `skb_to_iphdr`, `skb_to_ipv6hdr`, `get_pkt_tuple`, `get_pkt_tuple_v6`).

  The probe of the MAC layer takes the TCP header to follow an IP header of the least
  length; the later ones take it from where the kernel says it is. A frame that carries TCP
  (`CarriesTcp`) has IP options of any length, or any chain of extension headers, in
  between.

  The law (`SameTuple`): the probes of all layers compute the same tuple. `sameTuple_iff`:
  it holds of a frame if and only if nothing is in between, or the 12 bytes after the fixed
  header are those the TCP header starts with. A frame with one option word is enough to
  break it (`an_option_hides_the_entry`).
-/

import Ksight.Netwatcher.Packet

namespace Ksight.Netwatcher.Frame

open Ksight.Lib

/-- The memory, and the fields of a `struct sk_buff` that point into it. -/
structure SkBuff where
  mem : Nat → UInt8
  head : Nat
  data : Nat
  networkHeader : Nat
  transportHeader : Nat

/-- `struct packet_tuple` with the fields of IPv6, whose addresses are the bytes of the header. -/
structure Tuple extends PacketTuple where
  saddrV6 : List UInt8
  daddrV6 : List UInt8
  len : UInt32
  deriving DecidableEq

def zeroV6 : List UInt8 := List.replicate 16 0

/-- `{0}`. -/
def Tuple.zero : Tuple := { saddr := 0, daddr := 0, sport := 0, dport := 0, seq := 0, ack := 0, tranFlag := 0,
                            saddrV6 := zeroV6, daddrV6 := zeroV6, len := 0 }

structure TcpHdr where
  source : UInt16
  dest : UInt16
  seq : UInt32
  ackSeq : UInt32

variable (mem : Nat → UInt8)

def read16 (a : Nat) : UInt16 := le16 (mem a) (mem (a + 1))

def read32 (a : Nat) : UInt32 := le32 (mem a) (mem (a + 1)) (mem (a + 2)) (mem (a + 3))

/-- The bytes from `a` on. -/
def bytesAt (a n : Nat) : List UInt8 := (List.range n).map fun i => mem (a + i)

def tcpHdr (a : Nat) : TcpHdr := ⟨read16 mem a, read16 mem (a + 2), read32 mem (a + 4), read32 mem (a + 8)⟩

/-- `ip` is the address of the IP header, `tcp` that of the TCP header. -/
def getPktTuple (ip tcp : Nat) : Tuple :=
  let t := tcpHdr mem tcp
  { Netwatcher.getPktTuple ⟨read32 mem (ip + 12), read32 mem (ip + 16), t.source, t.dest, t.seq, t.ackSeq⟩ with
    saddrV6 := zeroV6
    daddrV6 := zeroV6
    len := 0 }

def getPktTupleV6 (ip6h tcp : Nat) (pktTuple : Tuple) : Tuple :=
  let t := tcpHdr mem tcp
  { pktTuple with
    saddrV6 := bytesAt mem (ip6h + 8) 16
    daddrV6 := bytesAt mem (ip6h + 24) 16
    sport := bswap16 t.source
    dport := bswap16 t.dest
    seq := bswap32 t.seq
    ack := bswap32 t.ackSeq
    tranFlag := 1 }

/-! ## The probes -/

variable (skb : SkBuff)

def skbToTcphdr : Nat := skb.head + skb.transportHeader

def skbToIphdr : Nat := skb.head + skb.networkHeader

def skbToIpv6hdr : Nat := skb.head + skb.networkHeader

def ethPIp : UInt16 := 0x0800

def ethPIpv6 : UInt16 := 0x86dd

def sizeofIphdr : Nat := 20

def sizeofIpv6hdr : Nat := 40

/-- The tuple under which `__eth_type_trans` notes the time. -/
def ethTypeTrans : Option Tuple :=
  let protocol := read16 skb.mem (skb.data + 12)
  if protocol = bswap16 ethPIp then
    some (getPktTuple skb.mem (skb.data + 14) (skb.data + sizeofIphdr + 14))
  else if protocol = bswap16 ethPIpv6 then
    some (getPktTupleV6 skb.mem (skb.data + 14) (skb.data + sizeofIpv6hdr + 14) .zero)
  else none

def ipRcvCore : Tuple := getPktTuple skb.mem (skbToIphdr skb) (skbToTcphdr skb)

def tcpV4Rcv : Tuple := getPktTuple skb.mem (skbToIphdr skb) (skbToTcphdr skb)

def ip6RcvCore : Tuple := getPktTupleV6 skb.mem (skbToIpv6hdr skb) (skbToTcphdr skb) .zero

def tcpV6Rcv : Tuple := getPktTupleV6 skb.mem (skbToIpv6hdr skb) (skbToTcphdr skb) .zero

/-! ## Frames that carry TCP -/

def ipprotoTcp : UInt8 := 6

/-- The length of the extension header of type `nexthdr` at `a`: a fragment header has 8
    bytes, an authentication header counts words of 4 bytes, the others (hop-by-hop, routing,
    destination options, mobility, HIP, shim6) words of 8 bytes. -/
def extensionLength (nexthdr : UInt8) (a : Nat) : Option Nat :=
  if nexthdr = 44 then some 8
  else if nexthdr = 51 then some (((mem (a + 1)).toNat + 2) * 4)
  else if nexthdr ∈ [0, 43, 60, 135, 139, 140] then some (((mem (a + 1)).toNat + 1) * 8)
  else none

/-- A chain of extension headers from `a` on, the first of type `nexthdr`, to a TCP header at `tcp`. -/
inductive Chain : UInt8 → Nat → Nat → Prop
  | tcp (a : Nat) : Chain ipprotoTcp a a
  | extension {nexthdr : UInt8} {a n tcp : Nat} (h : extensionLength mem nexthdr a = some n)
      (rest : Chain (mem a) (a + n) tcp) : Chain nexthdr a tcp

inductive Version where
  | v4
  | v6
  deriving DecidableEq

/-- The length of the fixed part of the IP header. -/
def Version.headerSize : Version → Nat
  | .v4 => sizeofIphdr
  | .v6 => sizeofIpv6hdr

def ihl : Nat := (skb.mem (skb.data + 14)).toNat % 16

/-- `skb` is a frame that carries TCP over IP, and its headers are where it says. -/
structure CarriesTcp (v : Version) : Prop where
  network : skb.head + skb.networkHeader = skb.data + 14
  etherType : bytesAt skb.mem (skb.data + 12) 2 = match v with
    | .v4 => [0x08, 0x00]
    | .v6 => [0x86, 0xdd]
  transport : match v with
    | .v4 => 5 ≤ ihl skb ∧ skb.mem (skb.data + 23) = ipprotoTcp ∧
      skb.head + skb.transportHeader = skb.data + 14 + ihl skb * 4
    | .v6 => Chain skb.mem (skb.mem (skb.data + 20)) (skb.data + 54) (skb.head + skb.transportHeader)

/-- The tuples of the layers above the MAC layer. -/
def layers : Version → List Tuple
  | .v4 => [ipRcvCore skb, tcpV4Rcv skb]
  | .v6 => [ip6RcvCore skb, tcpV6Rcv skb]

/-! ## The law -/

def SameTuple (v : Version) : Prop := ∀ t ∈ layers skb v, ethTypeTrans skb = some t

/-- The condition: the TCP header follows the fixed header, or what does follow it starts
    with the same 12 bytes. -/
def FollowsFixed (v : Version) : Prop :=
  skb.head + skb.transportHeader = skb.data + 14 + v.headerSize ∨
    bytesAt skb.mem (skb.data + 14 + v.headerSize) 12 = bytesAt skb.mem (skb.head + skb.transportHeader) 12

/-! ## The tuples as bytes -/

section
variable {mem}

theorem tcpHdr_eq_iff {a b : Nat} : tcpHdr mem a = tcpHdr mem b ↔ bytesAt mem a 12 = bytesAt mem b 12 := by
  have hrange : List.range 12 = [0, 1, 2, 3, 4, 5, 6, 7, 8, 9, 10, 11] := rfl
  simp only [tcpHdr, read16, read32, TcpHdr.mk.injEq, le16_inj, le32_inj, bytesAt, hrange, List.map_cons,
    List.map_nil, List.cons.injEq, and_true, Nat.add_zero, Nat.add_assoc, Nat.reduceAdd, and_assoc]

theorem getPktTuple_eq_iff {ip a b : Nat} :
    getPktTuple mem ip a = getPktTuple mem ip b ↔ bytesAt mem a 12 = bytesAt mem b 12 := by
  rw [← tcpHdr_eq_iff]
  simp only [getPktTuple, Netwatcher.getPktTuple, Tuple.mk.injEq, PacketTuple.mk.injEq, bswap16_inj, bswap32_inj,
    true_and, and_true]
  cases tcpHdr mem a
  cases tcpHdr mem b
  simp only [TcpHdr.mk.injEq]

theorem getPktTupleV6_eq_iff {ip6h a b : Nat} {t : Tuple} :
    getPktTupleV6 mem ip6h a t = getPktTupleV6 mem ip6h b t ↔ bytesAt mem a 12 = bytesAt mem b 12 := by
  rw [← tcpHdr_eq_iff]
  simp only [getPktTupleV6, Tuple.mk.injEq, PacketTuple.mk.injEq, bswap16_inj, bswap32_inj, true_and, and_true]
  cases tcpHdr mem a
  cases tcpHdr mem b
  simp only [TcpHdr.mk.injEq]

end

section
variable {skb}

theorem read_etherType {a : Nat} {b0 b1 : UInt8} (h : bytesAt skb.mem a 2 = [b0, b1]) :
    read16 skb.mem a = le16 b0 b1 := by
  have hrange : List.range 2 = [0, 1] := rfl
  simp only [bytesAt, hrange, List.map_cons, List.map_nil, List.cons.injEq, and_true, Nat.add_zero] at h
  rw [read16, h.1, h.2]

theorem followsFixed_iff (v : Version) :
    FollowsFixed skb v ↔
      bytesAt skb.mem (skb.data + 14 + v.headerSize) 12 =
        bytesAt skb.mem (skb.head + skb.transportHeader) 12 :=
  ⟨fun h => h.elim (fun h => by rw [h]) id, .inr⟩

/-- The probes of all layers compute the same tuple if and only if the TCP header follows the
    fixed header, or as well might. -/
theorem sameTuple_iff {v : Version} (h : CarriesTcp skb v) : SameTuple skb v ↔ FollowsFixed skb v := by
  have htype := h.etherType
  rw [followsFixed_iff]
  cases v with
  | v4 =>
    have hip : read16 skb.mem (skb.data + 12) = bswap16 ethPIp := (read_etherType htype).trans (by decide)
    have heth : ethTypeTrans skb = some (getPktTuple skb.mem (skb.data + 14) (skb.data + 14 + sizeofIphdr)) := by
      rw [ethTypeTrans, if_pos hip, Nat.add_right_comm]
    simp only [SameTuple, layers, ipRcvCore, tcpV4Rcv, skbToIphdr, skbToTcphdr, List.forall_mem_cons,
      List.not_mem_nil, IsEmpty.forall_iff, implies_true, and_true, and_self, heth, h.network, Option.some.injEq,
      Version.headerSize, getPktTuple_eq_iff]
  | v6 =>
    have hip : read16 skb.mem (skb.data + 12) = bswap16 ethPIpv6 := (read_etherType htype).trans (by decide)
    have heth : ethTypeTrans skb =
        some (getPktTupleV6 skb.mem (skb.data + 14) (skb.data + 14 + sizeofIpv6hdr) .zero) := by
      rw [ethTypeTrans, hip, if_neg (by decide), if_pos rfl, Nat.add_right_comm]
    simp only [SameTuple, layers, ip6RcvCore, tcpV6Rcv, skbToIpv6hdr, skbToTcphdr, List.forall_mem_cons,
      List.not_mem_nil, IsEmpty.forall_iff, implies_true, and_true, and_self, heth, h.network, Option.some.injEq,
      Version.headerSize, getPktTupleV6_eq_iff]

end

/-! ## Two frames -/

/-- An Ethernet header, an IPv4 header with the words `options`, and a TCP header from port
    53 to port 80. -/
def frameBytes (options : List UInt8) : List UInt8 :=
  [0, 0, 0, 0, 0, 0, 0, 0, 0, 0, 0, 0, 0x08, 0x00,
    .ofNat (0x45 + options.length / 4), 0, 0, 0, 0, 0, 0, 0, 64, 6, 0, 0, 10, 0, 0, 1, 10, 0, 0, 2] ++ options ++
    [0, 53, 0, 80, 0, 0, 0, 1, 0, 0, 0, 2, 0x50, 0, 0, 0, 0, 0, 0, 0]

def frame (options : List UInt8) : SkBuff where
  mem i := (frameBytes options).getD i 0
  head := 0
  data := 0
  networkHeader := 14
  transportHeader := 34 + options.length

theorem a_plain_frame_is_found : CarriesTcp (frame []) .v4 ∧ SameTuple (frame []) .v4 := by
  have h : CarriesTcp (frame []) .v4 := ⟨rfl, by decide, by decide, by decide, by decide⟩
  exact ⟨h, (sameTuple_iff h).mpr (.inl rfl)⟩

/-- A router alert. -/
theorem an_option_hides_the_entry :
    CarriesTcp (frame [0x94, 0x04, 0, 0]) .v4 ∧ ¬ SameTuple (frame [0x94, 0x04, 0, 0]) .v4 := by
  have h : CarriesTcp (frame [0x94, 0x04, 0, 0]) .v4 := ⟨rfl, by decide, by decide, by decide, by decide⟩
  refine ⟨h, fun hs => ?_⟩
  have := hs _ List.mem_cons_self
  revert this
  decide

end Ksight.Netwatcher.Frame

/-
  Ksight.Wirefisher.SkBuff — the packet a netfilter program is given, and the headers it
  reads from it (src/net/wirefisher/bpf/tc_port.bpf.h and tc_process.bpf.h: `ip_hdr`,
  `udp_hdr`, `tcp_hdr`, the same in both).

  A packet is its bytes from the IP header on. `bpf_dynptr_slice` gives the bytes asked
  for where the packet has them; the header fields are little-endian loads, so addresses
  and ports are in network order until they are swapped.
-/

import Ksight.Lib.Endian

namespace Ksight.Wirefisher

open Ksight.Lib

structure SkBuff where
  data : List UInt8
  fits : data.length < 2 ^ 32

def SkBuff.len (skb : SkBuff) : UInt32 := .ofNat skb.data.length

@[simp] theorem SkBuff.toNat_len (skb : SkBuff) : skb.len.toNat = skb.data.length :=
  UInt32.toNat_ofNat_of_lt' skb.fits

def SkBuff.dynptrSlice (skb : SkBuff) (offset size : Nat) : Option (List UInt8) :=
  if offset + size ≤ skb.data.length then some ((skb.data.drop offset).take size) else none

structure IpHdr where
  version : UInt8
  ihl : UInt8
  protocol : UInt8
  saddr : UInt32
  daddr : UInt32

/-- The source and destination port, which a TCP and a UDP header start with. -/
structure PortHdr where
  source : UInt16
  dest : UInt16

def byte (bytes : List UInt8) (i : Nat) : UInt8 := bytes.getD i 0

def IpHdr.ofBytes (b : List UInt8) : IpHdr where
  version := byte b 0 >>> 4
  ihl := byte b 0 &&& 15
  protocol := byte b 9
  saddr := le32 (byte b 12) (byte b 13) (byte b 14) (byte b 15)
  daddr := le32 (byte b 16) (byte b 17) (byte b 18) (byte b 19)

def PortHdr.ofBytes (b : List UInt8) : PortHdr := ⟨le16 (byte b 0) (byte b 1), le16 (byte b 2) (byte b 3)⟩

def sizeofUdphdr : UInt32 := 8

def sizeofTcphdr : UInt32 := 20

def ipHdr (skb : SkBuff) : Option IpHdr :=
  if skb.len ≤ 20 then none else (skb.dynptrSlice 0 20).map IpHdr.ofBytes

def udpHdr (skb : SkBuff) (offset : UInt32) : Option PortHdr :=
  if skb.len ≤ offset then none
  else (skb.dynptrSlice offset.toNat sizeofUdphdr.toNat).map PortHdr.ofBytes

def tcpHdr (skb : SkBuff) (offset : UInt32) : Option PortHdr :=
  if skb.len ≤ offset then none
  else (skb.dynptrSlice offset.toNat sizeofTcphdr.toNat).map PortHdr.ofBytes

theorem toNat_iphl (ihl : UInt8) : (ihl.toUInt32 * 4).toNat = ihl.toNat * 4 := by
  have := ihl.toNat_lt
  rw [UInt32.toNat_mul, UInt8.toNat_toUInt32]
  exact Nat.mod_eq_of_lt (by show ihl.toNat * 4 < 2 ^ 32; omega)

def ipprotoTcp : UInt8 := 6

def ipprotoUdp : UInt8 := 17

def nfInetLocalIn : UInt32 := 1

def nfInetLocalOut : UInt32 := 3

def egress : UInt8 := 1

def ingress : UInt8 := 0

/-! ## A packet to a destination -/

/-- The bytes of a packet without options, from the address 0 and the port 0. -/
def packetBytes (dstIp : UInt32) (dstPort : UInt16) (protocol : UInt8) (len : Nat) : List UInt8 :=
  let ip := be32 dstIp
  let port := be16 dstPort
  [0x45, 0, 0, 0, 0, 0, 0, 0, 0, protocol, 0, 0, 0, 0, 0, 0, ip.1, ip.2.1, ip.2.2.1, ip.2.2.2,
    0, 0, port.1, port.2] ++ List.replicate (len - 24) 0

def packet (dstIp : UInt32) (dstPort : UInt16) (protocol : UInt8) (len : UInt16) : SkBuff where
  data := packetBytes dstIp dstPort protocol len.toNat
  fits := by
    have := len.toNat_lt
    simp [packetBytes]; omega

/-- A TCP or UDP packet can have that length. -/
def Carries (protocol : UInt8) (len : UInt16) : Prop :=
  protocol = ipprotoUdp ∧ 28 ≤ len.toNat ∨ protocol = ipprotoTcp ∧ 40 ≤ len.toNat

section

variable {dstIp : UInt32} {dstPort : UInt16} {protocol : UInt8} {len : UInt16}

theorem le_of_carries (h : Carries protocol len) : 28 ≤ len.toNat := by
  rcases h with h | h <;> omega

variable (dstIp dstPort) in
theorem length_packet (h : Carries protocol len) :
    (packet dstIp dstPort protocol len).data.length = len.toNat := by
  have := le_of_carries h
  simp [packet, packetBytes]; omega

theorem packet_len_gt (h : Carries protocol len) {n : UInt32} (hn : n.toNat < len.toNat) :
    ¬ (packet dstIp dstPort protocol len).len ≤ n := by
  intro hle
  have := UInt32.le_iff_toNat_le.mp hle
  rw [SkBuff.toNat_len, length_packet _ _ h] at this
  omega

theorem packet_len_ge (h : Carries protocol len) {n : UInt32} (hn : n.toNat ≤ len.toNat) :
    ¬ (packet dstIp dstPort protocol len).len < n := by
  intro hlt
  have := UInt32.lt_iff_toNat_lt.mp hlt
  rw [SkBuff.toNat_len, length_packet _ _ h] at this
  omega

theorem ipHdr_packet (h : Carries protocol len) :
    ipHdr (packet dstIp dstPort protocol len) = some ⟨4, 5, protocol, 0, bswap32 dstIp⟩ := by
  have h28 := le_of_carries h
  have hl := length_packet dstIp dstPort h
  have hd : bswap32 dstIp = le32 (be32 dstIp).1 (be32 dstIp).2.1 (be32 dstIp).2.2.1 (be32 dstIp).2.2.2 := by
    rw [← bswap32_bswap32 (le32 _ _ _ _), bswap32_le32_be32]
  rw [ipHdr, if_neg (packet_len_gt h (by show 20 < len.toNat; omega)), SkBuff.dynptrSlice, if_pos (by omega), hd]
  simp [packet, packetBytes, IpHdr.ofBytes, byte]
  decide

theorem ofBytes_packet (n : Nat) {size : Nat} (hsize : 4 ≤ size) :
    PortHdr.ofBytes (((packetBytes dstIp dstPort protocol n).drop 20).take size) = ⟨0, bswap16 dstPort⟩ := by
  have hd : bswap16 dstPort = le16 (be16 dstPort).1 (be16 dstPort).2 := by
    rw [← bswap16_bswap16 (le16 _ _), bswap16_le16_be16]
  obtain ⟨k, rfl⟩ := Nat.exists_eq_add_of_le' hsize
  simp [packetBytes, PortHdr.ofBytes, byte, hd]
  decide

theorem udpHdr_packet (h : Carries protocol len) :
    udpHdr (packet dstIp dstPort protocol len) 20 = some ⟨0, bswap16 dstPort⟩ := by
  have h28 := le_of_carries h
  have hl := length_packet dstIp dstPort h
  rw [udpHdr, if_neg (packet_len_gt h (by show 20 < len.toNat; omega)), SkBuff.dynptrSlice,
    if_pos (by show 28 ≤ _; omega)]
  exact congrArg some (ofBytes_packet _ (by decide))

theorem tcpHdr_packet (h : Carries protocol len) (h40 : 40 ≤ len.toNat) :
    tcpHdr (packet dstIp dstPort protocol len) 20 = some ⟨0, bswap16 dstPort⟩ := by
  have hl := length_packet dstIp dstPort h
  rw [tcpHdr, if_neg (packet_len_gt h (by show 20 < len.toNat; omega)), SkBuff.dynptrSlice,
    if_pos (by show 40 ≤ _; omega)]
  exact congrArg some (ofBytes_packet _ (by decide))

end

end Ksight.Wirefisher

/-
  Ksight.Wirefisher.PortEvents — what the port module tells of a packet
  (src/net/wirefisher/src/ip_pro_port_module.cpp: `handle_event`; include/parse.h:
  `ip_to_string`, `protocol_to_string`, `format_elapsed_ns`).

  The program has read addresses and ports off the packet in host order. The module
  prints them and puts them into a JSON record, the same values in both: the addresses
  through `htonl` and `inet_ntop`, the ports through `ntohs`.

  The law (`Own`): the tuple of the record is the packet's. Of the addresses and the
  protocol it always is. The ports were in host order already and are swapped once more, so
  `own_iff`: the law holds of a reported packet if and only if it has no ports, or each of
  its ports has the same two bytes (`Palindromic`). Port 53 is told as 13568
  (`port_53_is_told_as_13568`).
-/

import Ksight.Wirefisher.PortHandle

namespace Ksight.Wirefisher.Port

open Ksight.Lib

/-- `inet_ntop` of the four bytes of an address in network order. -/
def inetNtop (bytes : List UInt8) : String := ".".intercalate (bytes.map fun b => toString b.toNat)

def ipToString (ipHbo : UInt32) : String := inetNtop (bytes32 (bswap32 ipHbo))

def protocolToString (proto : UInt8) : String :=
  if proto = ipprotoTcp then "TCP" else if proto = ipprotoUdp then "UDP" else toString proto.toNat

/-- A number at least `width` wide, filled up with zeros. -/
def setw (width n : Nat) : String :=
  String.ofList (List.replicate (width - (toString n).length) '0') ++ toString n

def formatElapsedNs (nsSinceBoot : UInt64) : String :=
  let totalMs := nsSinceBoot.toNat / 1000000
  let hours := totalMs / 3600000
  let minutes := totalMs % 3600000 / 60000
  let seconds := totalMs % 60000 / 1000
  let millis := totalMs % 1000
  setw 2 hours ++ ":" ++ setw 2 minutes ++ ":" ++ setw 2 seconds ++ "." ++ setw 3 millis

/-- What is printed and put into the JSON record; the rates, in MB/s, are left out. -/
structure Traffic where
  srcIp : String
  dstIp : String
  srcPort : UInt16
  dstPort : UInt16
  protocol : String
  timestamp : String
  deriving DecidableEq

def sizeofMessageGet : Nat := 56

def handleEvent (e : MessageGet) (dataSz : Nat) : Option Traffic :=
  if dataSz ≠ sizeofMessageGet then none
  else
    some
      { srcIp := ipToString e.tuple.srcIp
        dstIp := ipToString e.tuple.dstIp
        srcPort := bswap16 e.tuple.srcPort
        dstPort := bswap16 e.tuple.dstPort
        protocol := protocolToString e.tuple.protocol
        timestamp := formatElapsedNs e.timestamp }

/-! ## The packet's own tuple -/

/-- Where the header that follows the IP header starts. -/
def transport (data : List UInt8) : Nat := (byte data 0 &&& 15).toNat * 4

def protocolOf (data : List UInt8) : UInt8 := byte data 9

/-- A TCP or a UDP packet. -/
def HasPorts (data : List UInt8) : Prop := protocolOf data = ipprotoUdp ∨ protocolOf data = ipprotoTcp

instance (data : List UInt8) : Decidable (HasPorts data) := inferInstanceAs (Decidable (_ ∨ _))

/-- The port at a place of the packet, in network order; 0 where there are none. -/
def portAt (data : List UInt8) (i : Nat) : Nat :=
  if HasPorts data then (byte data i).toNat * 256 + (byte data (i + 1)).toNat else 0

structure Own (data : List UInt8) (t : Traffic) : Prop where
  srcIp : t.srcIp = inetNtop [byte data 12, byte data 13, byte data 14, byte data 15]
  dstIp : t.dstIp = inetNtop [byte data 16, byte data 17, byte data 18, byte data 19]
  srcPort : t.srcPort.toNat = portAt data (transport data)
  dstPort : t.dstPort.toNat = portAt data (transport data + 2)
  protocol : t.protocol = protocolToString (protocolOf data)

/-- The condition: the two bytes of each port are the same. -/
def Palindromic (data : List UInt8) : Prop :=
  HasPorts data → byte data (transport data) = byte data (transport data + 1) ∧
    byte data (transport data + 2) = byte data (transport data + 3)

instance (data : List UInt8) : Decidable (Palindromic data) := inferInstanceAs (Decidable (_ → _))

/-! ## What the program reads -/

theorem byte_slice (data : List UInt8) (offset : Nat) {size i : Nat} (h : i < size) :
    byte ((data.drop offset).take size) i = byte data (offset + i) := by
  simp [byte, List.getD_eq_getElem?_getD, h]

theorem ipHdr_fields {skb : SkBuff} {iph : IpHdr} (h : ipHdr skb = some iph) : iph = .ofBytes skb.data := by
  unfold ipHdr at h
  split at h; · cases h
  obtain ⟨b, hb, rfl⟩ := Option.map_eq_some_iff.mp h
  unfold SkBuff.dynptrSlice at hb
  split at hb
  · cases hb
    simp (disch := decide) only [IpHdr.ofBytes, byte_slice, Nat.zero_add]
  · cases hb

/-- The ports a header's reader finds. -/
theorem portHdr_fields {skb : SkBuff} {offset size : Nat} (hsize : 4 ≤ size) {b : List UInt8}
    (h : skb.dynptrSlice offset size = some b) :
    PortHdr.ofBytes b =
      ⟨le16 (byte skb.data offset) (byte skb.data (offset + 1)),
        le16 (byte skb.data (offset + 2)) (byte skb.data (offset + 3))⟩ := by
  unfold SkBuff.dynptrSlice at h
  split at h
  · cases h
    simp (disch := omega) only [PortHdr.ofBytes, byte_slice, Nat.add_zero]
  · cases h

/-- The tuple of a packet, in host order. -/
theorem parse_tuple {skb : SkBuff} {t : PacketTuple} (h : parseSkBuff skb = some t) :
    t.srcIp = le32 (byte skb.data 15) (byte skb.data 14) (byte skb.data 13) (byte skb.data 12) ∧
      t.dstIp = le32 (byte skb.data 19) (byte skb.data 18) (byte skb.data 17) (byte skb.data 16) ∧
      t.protocol = protocolOf skb.data ∧ t.srcPort.toNat = portAt skb.data (transport skb.data) ∧
      t.dstPort.toNat = portAt skb.data (transport skb.data + 2) := by
  obtain ⟨iph, hiph, -, -, hcases⟩ := parse_cases h
  obtain rfl := ipHdr_fields hiph
  have hsrc := bswap32_le32 (byte skb.data 12) (byte skb.data 13) (byte skb.data 14) (byte skb.data 15)
  have hdst := bswap32_le32 (byte skb.data 16) (byte skb.data 17) (byte skb.data 18) (byte skb.data 19)
  have hports {size : Nat} (hsize : 4 ≤ size) {b : List UInt8}
      (hb : skb.dynptrSlice ((byte skb.data 0 &&& 15).toUInt32 * 4).toNat size = some b)
      (hhas : HasPorts skb.data) :
      (bswap16 (PortHdr.ofBytes b).source).toNat = portAt skb.data (transport skb.data) ∧
        (bswap16 (PortHdr.ofBytes b).dest).toNat = portAt skb.data (transport skb.data + 2) := by
    rw [toNat_iphl] at hb
    rw [portHdr_fields hsize hb, bswap16_le16, bswap16_le16, toNat_le16, toNat_le16, portAt, portAt,
      if_pos hhas, if_pos hhas, transport]
    exact ⟨Nat.add_comm _ _, Nat.add_comm _ _⟩
  rcases hcases with ⟨udph, hudp, hhdr, rfl⟩ | ⟨tcph, htcp, -, hhdr, rfl⟩ | ⟨hudp, htcp, rfl⟩
  · unfold udpHdr at hhdr
    split at hhdr; · cases hhdr
    obtain ⟨b, hb, rfl⟩ := Option.map_eq_some_iff.mp hhdr
    exact ⟨hsrc, hdst, rfl, hports (by decide) hb (.inl hudp)⟩
  · unfold tcpHdr at hhdr
    split at hhdr; · cases hhdr
    obtain ⟨b, hb, rfl⟩ := Option.map_eq_some_iff.mp hhdr
    exact ⟨hsrc, hdst, rfl, hports (by decide) hb (.inr htcp)⟩
  · have hnone : ¬ HasPorts skb.data := not_or.mpr ⟨hudp, htcp⟩
    exact ⟨hsrc, hdst, rfl, (if_neg hnone).symm, (if_neg hnone).symm⟩

/-! ## The law -/

theorem messageOf_tuple (tuple : PacketTuple) (timestamp : UInt64) (info : Option FlowRateInfo) :
    (messageOf tuple timestamp info).tuple = tuple := by
  cases info <;> rfl

/-- The tuple of a message is the one of the packet. -/
theorem reported_tuple {rules : BoundedMap UInt32 IpProPortRule maxRules} {ctx : BpfNfCtx} {r : Readings}
    {m : Maps} {mes : MessageGet} (h : (netfilterHandle rules ctx r m).2.1 = some mes) :
    parseSkBuff ctx.skb = some mes.tuple := by
  rcases hr : rules.lookup 0 with _ | rule
  · simp [netfilterHandle, hr] at h
  · rcases hm : ruleMatch rule ctx with _ | t
    · rw [netfilterHandle_pass hr hm] at h
      cases h
    · rw [netfilterHandle_match hr hm] at h
      obtain ⟨-, hparse, -⟩ := ruleMatch_eq_some.mp hm
      unfold sendMessage at h
      split at h
      · cases h
        rw [hparse, messageOf_tuple]
      · cases h

theorem ipToString_le32 (b0 b1 b2 b3 : UInt8) : ipToString (le32 b3 b2 b1 b0) = inetNtop [b0, b1, b2, b3] := by
  rw [ipToString, bswap32_le32, bytes32_le32]

/-- A swapped port is the port if and only if its two bytes are the same. -/
theorem swapped_port_iff {data : List UInt8} {port : UInt16} {i : Nat} (h : port.toNat = portAt data i) :
    (bswap16 port).toNat = portAt data i ↔ (HasPorts data → byte data i = byte data (i + 1)) := by
  have h0 := (byte data i).toNat_lt
  have h1 := (byte data (i + 1)).toNat_lt
  rw [toNat_bswap16, h, portAt, ← UInt8.toNat_inj]
  split
  · rename_i hhas
    simp only [hhas, true_imp_iff]
    omega
  · rename_i hnone
    simp [hnone]

/-- A reported packet's tuple is told as it is if and only if each of its ports has the same
    two bytes. -/
theorem own_iff {rules : BoundedMap UInt32 IpProPortRule maxRules} {ctx : BpfNfCtx} {r : Readings} {m : Maps}
    {mes : MessageGet} (h : (netfilterHandle rules ctx r m).2.1 = some mes) :
    (∃ t, handleEvent mes sizeofMessageGet = some t ∧ Own ctx.skb.data t) ↔ Palindromic ctx.skb.data := by
  obtain ⟨hsrc, hdst, hproto, hsport, hdport⟩ := parse_tuple (reported_tuple h)
  have hs := swapped_port_iff hsport
  have hd := swapped_port_iff hdport
  constructor
  · rintro ⟨_, ⟨⟩, hown⟩ hhas
    exact ⟨hs.mp hown.srcPort hhas, hd.mp hown.dstPort hhas⟩
  · intro hpal
    exact ⟨_, rfl,
      { srcIp := by rw [hsrc, ipToString_le32]
        dstIp := by rw [hdst, ipToString_le32]
        srcPort := hs.mpr fun hhas => (hpal hhas).1
        dstPort := hd.mpr fun hhas => (hpal hhas).2
        protocol := by rw [hproto] }⟩

/-- The rule for all ingress. -/
def anyIngress : BoundedMap UInt32 IpProPortRule maxRules :=
  (BoundedMap.empty.update 0 ⟨0, 0, 0, 112, 1, 0, 0, 0, 0⟩).getD .empty

/-- The message for a datagram of 28 bytes to 10.0.0.2. -/
def messageFor (dstPort : UInt16) : Option MessageGet :=
  (netfilterHandle anyIngress ⟨nfInetLocalIn, packet 0x0a000002 dstPort ipprotoUdp 28⟩ ⟨1, 2, 3, 4, true⟩
    ⟨.empty, .empty⟩).2.1

def messageTo (dstPort : UInt16) : MessageGet :=
  ⟨56000000000, 56000000000, 0, 0, ⟨0, 0x0a000002, 0, dstPort, ipprotoUdp⟩, 3⟩

/-- Port 13621 is 0x3535. -/
theorem port_13621_is_told :
    ∃ t, handleEvent (messageTo 13621) sizeofMessageGet = some t ∧
      Own (packet 0x0a000002 13621 ipprotoUdp 28).data t :=
  (own_iff (show messageFor 13621 = some (messageTo 13621) by decide +kernel)).mpr (by decide)

theorem port_53_is_told_as_13568 :
    messageFor 53 = some (messageTo 53) ∧
      ¬ ∃ t, handleEvent (messageTo 53) sizeofMessageGet = some t ∧
        Own (packet 0x0a000002 53 ipprotoUdp 28).data t := by
  refine ⟨by decide +kernel, ?_⟩
  rintro ⟨_, ⟨⟩, hown⟩
  have := hown.dstPort
  revert this
  decide

end Ksight.Wirefisher.Port

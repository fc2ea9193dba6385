/-
  Ksight.Tcpaccd.SockMap — the two programs over `sock_ops_map`
  (src/net/tcpaccd/bpf/tcpaccd.bpf.c).

  `bpf_sockmap` enters an established IPv4 socket under its 4-tuple, `bpf_redir` looks the
  mirrored 4-tuple of the sending socket up and redirects the message to the socket found.
  The machine is little-endian: a context gives `local_port` in host order and
  `remote_port` as the big-endian 16-bit port shifted left by 16, and `bpf_htonl` reverses
  the four bytes.

  `key_eq_iff`: the key a message looks up is the key another socket is entered under
  exactly when that socket has the mirrored 4-tuple, byte for byte (`msgKey_bytes_eq_iff`).
  The key says nothing of the network namespace.
-/

import Mathlib.Data.UInt
import Ksight.Lib.BoundedMap
import Ksight.Lib.Endian

namespace Ksight.Tcpaccd

open Ksight.Lib

def maxEntries : Nat := 65535

def afInet : UInt32 := 2

structure SockKey where
  sip4 : UInt32
  dip4 : UInt32
  family : UInt8
  pad1 : UInt8
  pad2 : UInt16
  pad3 : UInt32
  sport : UInt32
  dport : UInt32
  deriving DecidableEq

def SockKey.zero : SockKey := ⟨0, 0, 0, 0, 0, 0, 0, 0⟩

/-- The key in memory, which the map compares: the structure is packed. -/
def SockKey.bytes (key : SockKey) : List UInt8 :=
  bytes32 key.sip4 ++ bytes32 key.dip4 ++ [key.family, key.pad1] ++ bytes16 key.pad2 ++ bytes32 key.pad3 ++
    bytes32 key.sport ++ bytes32 key.dport

def bpfHtonl (x : UInt32) : UInt32 :=
  .ofNat (x.toNat % 256 * 2 ^ 24 + x.toNat / 256 % 256 * 2 ^ 16 + x.toNat / 65536 % 256 * 256 + x.toNat / 16777216)

/-- The fields of `sk_msg_md` and of `bpf_sock_ops` that name the socket's 4-tuple. -/
structure Context where
  remoteIp4 : UInt32
  localIp4 : UInt32
  remotePort : UInt32
  localPort : UInt32

structure BpfSockOps extends Context where
  op : Nat
  family : UInt32

def passiveEstablishedCb : Nat := 5

def activeEstablishedCb : Nat := 4

def extractKey4FromMsg (msg : Context) (key : SockKey) : SockKey :=
  { key with
    sip4 := msg.remoteIp4
    dip4 := msg.localIp4
    family := 1
    dport := bpfHtonl msg.localPort >>> 16
    sport := msg.remotePort >>> 16 }

def extractKey4FromOps (ops : Context) (key : SockKey) : SockKey :=
  { key with
    dip4 := ops.remoteIp4
    sip4 := ops.localIp4
    family := 1
    sport := bpfHtonl ops.localPort >>> 16
    dport := ops.remotePort >>> 16 }

inductive SkAction where
  | drop
  | pass
  deriving DecidableEq

variable {σ : Type}

/-- The verdict, and the socket `bpf_msg_redirect_hash` sets, if it finds one. -/
def bpfRedir (sockOpsMap : BoundedMap SockKey σ maxEntries) (msg : Context) : SkAction × Option σ :=
  (.pass, sockOpsMap.lookup (extractKey4FromMsg msg .zero))

/-- `sock` is the socket the callback is about. -/
def bpfSockOpsIpv4 (sock : σ) (skops : Context) (sockOpsMap : BoundedMap SockKey σ maxEntries) :
    BoundedMap SockKey σ maxEntries :=
  (sockOpsMap.updateNoExist (extractKey4FromOps skops .zero) sock).getD sockOpsMap

def bpfSockmap (sock : σ) (skops : BpfSockOps) (sockOpsMap : BoundedMap SockKey σ maxEntries) :
    BoundedMap SockKey σ maxEntries :=
  if skops.op = passiveEstablishedCb ∨ skops.op = activeEstablishedCb then
    if skops.family = afInet then bpfSockOpsIpv4 sock skops.toContext sockOpsMap else sockOpsMap
  else sockOpsMap

/-! ## Sockets and their keys -/

/-- An IPv4 TCP socket: its 4-tuple in the network namespace it lives in, and the
    connection it is an endpoint of. -/
structure Sock where
  ns : Nat
  conn : Nat
  localIp : UInt32
  localPort : UInt16
  remoteIp : UInt32
  remotePort : UInt16
  deriving DecidableEq

/-- A port in network byte order. -/
def bigEndian (port : UInt16) : Nat := port.toNat % 256 * 256 + port.toNat / 256

/-- The fields the kernel shows of a socket. -/
def Sock.context (s : Sock) : Context :=
  ⟨s.remoteIp, s.localIp, .ofNat (bigEndian s.remotePort * 2 ^ 16), s.localPort.toUInt32⟩

def Sock.skops (s : Sock) (op : Nat) : BpfSockOps := { s.context with op := op, family := afInet }

def Sock.msgKey (s : Sock) : SockKey := extractKey4FromMsg s.context .zero

def Sock.opsKey (s : Sock) : SockKey := extractKey4FromOps s.context .zero

/-- `t` is at the other end of the 4-tuple of `s`. -/
def Sock.Mirrors (t s : Sock) : Prop :=
  t.localIp = s.remoteIp ∧ t.localPort = s.remotePort ∧ t.remoteIp = s.localIp ∧ t.remotePort = s.localPort

instance (t s : Sock) : Decidable (t.Mirrors s) := inferInstanceAs (Decidable (_ ∧ _))

theorem bigEndian_lt (port : UInt16) : bigEndian port < 2 ^ 16 := by
  have := port.toNat_lt
  unfold bigEndian; omega

theorem bigEndian_inj {p q : UInt16} : bigEndian p = bigEndian q ↔ p = q := by
  refine ⟨fun h => UInt16.toNat_inj.mp ?_, fun h => h ▸ rfl⟩
  have := p.toNat_lt
  have := q.toNat_lt
  unfold bigEndian at h; omega

theorem toNat_shiftRight_16 (x : UInt32) : (x >>> 16).toNat = x.toNat / 65536 := by
  rw [UInt32.toNat_shiftRight]
  exact Nat.shiftRight_eq_div_pow _ _

theorem toNat_local (port : UInt16) : (bpfHtonl port.toUInt32 >>> 16).toNat = bigEndian port := by
  have := port.toNat_lt
  rw [toNat_shiftRight_16, bpfHtonl, UInt16.toNat_toUInt32,
    UInt32.toNat_ofNat_of_lt' (by show _ < 2 ^ 32; omega)]
  unfold bigEndian; omega

theorem toNat_remote (port : UInt16) :
    (UInt32.ofNat (bigEndian port * 2 ^ 16) >>> 16).toNat = bigEndian port := by
  have := bigEndian_lt port
  rw [toNat_shiftRight_16, UInt32.toNat_ofNat_of_lt' (by show _ < 2 ^ 32; omega)]
  omega

/-- A port is the same in a key whether it was local or remote. -/
theorem port_eq_iff {p q : UInt16} :
    UInt32.ofNat (bigEndian p * 2 ^ 16) >>> 16 = bpfHtonl q.toUInt32 >>> 16 ↔ p = q := by
  rw [← UInt32.toNat_inj, toNat_remote, toNat_local, bigEndian_inj]

theorem key_eq_iff (s t : Sock) : s.msgKey = t.opsKey ↔ t.Mirrors s := by
  simp only [Sock.msgKey, Sock.opsKey, extractKey4FromMsg, extractKey4FromOps, Sock.context, SockKey.mk.injEq,
    Sock.Mirrors, true_and, port_eq_iff]
  rw [eq_comm (a := bpfHtonl s.localPort.toUInt32 >>> 16), port_eq_iff]
  constructor
  · intro h
    obtain ⟨h1, h2, h3, h4⟩ := h
    exact ⟨h1.symm, h3.symm, h2.symm, h4⟩
  · intro h
    obtain ⟨h1, h2, h3, h4⟩ := h
    exact ⟨h1.symm, h3.symm, h2.symm, h4⟩

@[simp] theorem SockKey.length_bytes (key : SockKey) : key.bytes.length = 24 := by
  simp [SockKey.bytes]

theorem SockKey.bytes_injective : Function.Injective SockKey.bytes := by
  intro k l h
  simp only [SockKey.bytes] at h
  obtain ⟨h, hdport⟩ := List.append_inj' h (by simp)
  obtain ⟨h, hsport⟩ := List.append_inj' h (by simp)
  obtain ⟨h, hpad3⟩ := List.append_inj' h (by simp)
  obtain ⟨h, hpad2⟩ := List.append_inj' h (by simp)
  obtain ⟨h, hfamily⟩ := List.append_inj' h (by simp)
  obtain ⟨hsip4, hdip4⟩ := List.append_inj' h (by simp)
  simp only [List.cons.injEq, and_true] at hfamily
  cases k
  cases l
  simp only [SockKey.mk.injEq]
  exact ⟨bytes32_injective hsip4, bytes32_injective hdip4, hfamily.1, hfamily.2, bytes16_injective hpad2,
    bytes32_injective hpad3, bytes32_injective hsport, bytes32_injective hdport⟩

/-- The 24 bytes a message of `x` looks up are those `y` is entered under if and only if
    `y` is at the other end. -/
theorem msgKey_bytes_eq_iff (x y : Sock) :
    x.msgKey.bytes.length = 24 ∧ y.opsKey.bytes.length = 24 ∧
      (x.msgKey.bytes = y.opsKey.bytes ↔ y.Mirrors x) :=
  ⟨SockKey.length_bytes _, SockKey.length_bytes _, SockKey.bytes_injective.eq_iff.trans (key_eq_iff x y)⟩

/-! ## What a callback enters -/

/-- The callback establishes an IPv4 socket, and the map has no entry under its key and room for one. -/
def Enters (skops : BpfSockOps) (m : BoundedMap SockKey σ maxEntries) : Prop :=
  (skops.op = passiveEstablishedCb ∨ skops.op = activeEstablishedCb) ∧ skops.family = afInet ∧
    m.lookup (extractKey4FromOps skops.toContext .zero) = none ∧ m.keys.card < maxEntries

instance (skops : BpfSockOps) (m : BoundedMap SockKey σ maxEntries) : Decidable (Enters skops m) :=
  haveI : Decidable (m.lookup (extractKey4FromOps skops.toContext .zero) = none) :=
    decidable_of_iff (Option.isNone (m.lookup (extractKey4FromOps skops.toContext .zero)) = true)
      Option.isNone_iff_eq_none
  inferInstanceAs (Decidable (_ ∧ _))

/-- A callback that does not enter its socket leaves the map as it was. -/
theorem bpfSockmap_cases (sock : σ) (skops : BpfSockOps) (m : BoundedMap SockKey σ maxEntries) :
    bpfSockmap sock skops m = m ∨
      Enters skops m ∧ ∀ k, (bpfSockmap sock skops m).lookup k =
        if k = extractKey4FromOps skops.toContext .zero then some sock else m.lookup k := by
  unfold bpfSockmap bpfSockOpsIpv4
  split
  · rename_i hop
    split
    · rename_i hfam
      rcases hu : m.updateNoExist (extractKey4FromOps skops.toContext .zero) sock with _ | m'
      · exact .inl rfl
      · obtain ⟨hn, hm'⟩ := BoundedMap.updateNoExist_eq_some.mp hu
        have hroom := BoundedMap.card_lt_of_update hn hm'
        exact .inr ⟨⟨hop, hfam, hn, hroom⟩, fun k => BoundedMap.lookup_update hm' k⟩
    · exact .inl rfl
  · exact .inl rfl

end Ksight.Tcpaccd

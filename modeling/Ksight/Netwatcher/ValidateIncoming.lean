/-
  Ksight.Netwatcher.ValidateIncoming — the test of a segment's sequence numbers
  (src/net/netwatcher/bpf/tcp.bpf.h: `__tcp_validate_incoming`).

  The probe repeats the test of the kernel's `tcp_sequence`, with `-e`, and reports a
  segment that fails it with `err` 1. It compares sequence numbers as numbers, not modulo
  2^32, and it sets the receive window it has computed to 0.

  The law (`Agrees`): a segment is reported if and only if the kernel's test fails.
  `agrees_iff`: it holds of a segment if and only if `Plain` holds of the differences of
  the sequence numbers, taken as integers: where the probe finds the segment in order so
  does the kernel, and where it does not one of the kernel's differences is negative. A
  segment ahead of the next byte expected, inside the window, is reported
  (`data_inside_the_window_is_reported`).
-/

import Ksight.Netwatcher.Frame

namespace Ksight.Netwatcher.Validate

open Ksight.Netwatcher.Frame (SkBuff)

def afInet : UInt16 := 2

def afInet6 : UInt16 := 10

/-- What is read of a TCP socket. -/
structure TcpSock where
  addr : UInt64
  family : UInt16
  isInet : family = afInet ∨ family = afInet6
  rcvWup : UInt32
  rcvNxt : UInt32
  rcvWnd : UInt32

/-- A packet with its `tcp_skb_cb`. -/
structure Segment extends SkBuff where
  seq : UInt32
  endSeq : UInt32

/-- The fields of a `struct pack_t` that are written. -/
structure ErrPacket where
  err : Int
  sock : UInt64
  ack : UInt32
  seq : UInt32
  deriving DecidableEq

/-- The tuple by the socket's family, `none` for another one. -/
def tupleOf (sk : TcpSock) (skb : SkBuff) : Option Frame.Tuple :=
  if sk.family = afInet then some (Frame.getPktTuple skb.mem (Frame.skbToIphdr skb) (Frame.skbToTcphdr skb))
  else if sk.family = afInet6 then
    some (Frame.getPktTupleV6 skb.mem (Frame.skbToIpv6hdr skb) (Frame.skbToTcphdr skb) .zero)
  else none

/-- `tracked` tells the sockets that have an entry in `conns_info`; `none` is NULL. -/
def tcpValidateIncoming (errPacket : Bool) (tracked : UInt64 → Bool) (sk : Option TcpSock)
    (skb : Option Segment) (reserved : Bool) : Option ErrPacket :=
  if !errPacket then none
  else
    match sk, skb with
    | some sk, some skb =>
      if !tracked sk.addr then none
      else
        let receiveWindow : UInt32 := 0
        if skb.endSeq ≥ sk.rcvWup ∧ sk.rcvNxt + receiveWindow ≥ skb.seq then none
        else
          match tupleOf sk skb.toSkBuff with
          | none => none
          | some pktTuple => if reserved then some ⟨1, sk.addr, pktTuple.ack, pktTuple.seq⟩ else none
    | _, _ => none

/-! ## The kernel's test -/

/-- The cast to a signed 32-bit integer. -/
def signed (x : UInt32) : Int := x.toInt32.toInt

/-- The window that is left, 0 where the peer has gone beyond it. -/
def tcpReceiveWindow (sk : TcpSock) : UInt32 :=
  if 0 ≤ signed (sk.rcvWup + sk.rcvWnd - sk.rcvNxt) then sk.rcvWup + sk.rcvWnd - sk.rcvNxt else 0

def TcpSequence (sk : TcpSock) (skb : Segment) : Prop :=
  0 ≤ signed (skb.endSeq - sk.rcvWup) ∧ 0 ≤ signed (sk.rcvNxt + tcpReceiveWindow sk - skb.seq)

instance (sk : TcpSock) (skb : Segment) : Decidable (TcpSequence sk skb) := inferInstanceAs (Decidable (_ ∧ _))

/-! ## The law -/

def Agrees (tracked : UInt64 → Bool) (sk : TcpSock) (skb : Segment) : Prop :=
  (∃ p ∈ tcpValidateIncoming true tracked (some sk) (some skb) true, p.err = 1) ↔ ¬ TcpSequence sk skb

/-- From what is acknowledged to the end of the segment. -/
def past (sk : TcpSock) (skb : Segment) : Int := skb.endSeq.toNat - sk.rcvWup.toNat

/-- From the start of the segment to the next byte expected. -/
def behind (sk : TcpSock) (skb : Segment) : Int := sk.rcvNxt.toNat - skb.seq.toNat

/-- From the start of the segment to the end of the window. -/
def room (sk : TcpSock) (skb : Segment) : Int := behind sk skb + (tcpReceiveWindow sk).toNat

/-- The condition: the probe's test passes and both differences are less than half the
    range, modulo 2^32; or it fails and one of them is not. -/
def Plain (sk : TcpSock) (skb : Segment) : Prop :=
  (0 ≤ past sk skb ∧ 0 ≤ behind sk skb) ∧
      (past sk skb < 2 ^ 31 ∧ (room sk skb < 2 ^ 31 ∨ 2 ^ 32 ≤ room sk skb)) ∨
    (past sk skb < 0 ∨ behind sk skb < 0) ∧
      ((-2 ^ 31 ≤ past sk skb ∧ past sk skb < 0 ∨ 2 ^ 31 ≤ past sk skb) ∨
        (-2 ^ 31 ≤ room sk skb ∧ room sk skb < 0 ∨ 2 ^ 31 ≤ room sk skb ∧ room sk skb < 2 ^ 32))

instance (sk : TcpSock) (skb : Segment) : Decidable (Plain sk skb) := inferInstanceAs (Decidable (_ ∨ _))

theorem signed_nonneg (x : UInt32) : 0 ≤ signed x ↔ x.toNat < 2 ^ 31 := by
  have h : signed x = x.toBitVec.toInt := rfl
  have hx := x.toNat_lt
  rw [h, BitVec.toInt_eq_toNat_cond, UInt32.toNat_toBitVec]
  split <;> omega

theorem signed_sub_nonneg (x y : UInt32) :
    0 ≤ signed (x - y) ↔
      (0 ≤ (x.toNat : Int) - y.toNat ∧ (x.toNat : Int) - y.toNat < 2 ^ 31) ∨ (x.toNat : Int) - y.toNat < -2 ^ 31 := by
  have := x.toNat_lt
  have := y.toNat_lt
  rw [signed_nonneg, UInt32.toNat_sub]
  omega

theorem tcpReceiveWindow_lt (sk : TcpSock) : (tcpReceiveWindow sk).toNat < 2 ^ 31 := by
  unfold tcpReceiveWindow
  split
  · rename_i h
    exact (signed_nonneg _).mp h
  · decide

theorem past_iff (sk : TcpSock) (skb : Segment) :
    0 ≤ signed (skb.endSeq - sk.rcvWup) ↔
      (0 ≤ past sk skb ∧ past sk skb < 2 ^ 31) ∨ past sk skb < -2 ^ 31 :=
  signed_sub_nonneg _ _

theorem room_iff (sk : TcpSock) (skb : Segment) :
    0 ≤ signed (sk.rcvNxt + tcpReceiveWindow sk - skb.seq) ↔
      (0 ≤ room sk skb ∧ room sk skb < 2 ^ 31) ∨ room sk skb < -2 ^ 31 ∨ 2 ^ 32 ≤ room sk skb := by
  have hw := tcpReceiveWindow_lt sk
  have := sk.rcvNxt.toNat_lt
  have := skb.seq.toNat_lt
  rw [signed_nonneg, UInt32.toNat_sub, UInt32.toNat_add, room, behind]
  omega

theorem tupleOf_isSome (sk : TcpSock) (skb : SkBuff) : ∃ t, tupleOf sk skb = some t := by
  unfold tupleOf
  by_cases h : sk.family = afInet
  · exact ⟨_, if_pos h⟩
  · rw [if_neg h, if_pos (sk.isInet.resolve_left h)]
    exact ⟨_, rfl⟩

theorem reported_iff {tracked : UInt64 → Bool} {sk : TcpSock} (ht : tracked sk.addr = true) (skb : Segment) :
    (∃ p ∈ tcpValidateIncoming true tracked (some sk) (some skb) true, p.err = 1) ↔
      past sk skb < 0 ∨ behind sk skb < 0 := by
  obtain ⟨t, htuple⟩ := tupleOf_isSome sk skb.toSkBuff
  have hin : (skb.endSeq ≥ sk.rcvWup ∧ sk.rcvNxt + 0 ≥ skb.seq) ↔ ¬ (past sk skb < 0 ∨ behind sk skb < 0) := by
    simp only [ge_iff_le, UInt32.le_iff_toNat_le, UInt32.add_zero, past, behind]
    omega
  simp only [tcpValidateIncoming, ht, htuple, hin, Bool.not_true, Bool.false_eq_true, if_false, if_true]
  by_cases h : past sk skb < 0 ∨ behind sk skb < 0
  · simp [h]
  · simp [h]

/-- A tracked socket's segment is reported as the kernel's test has it if and only if its
    differences are plain. -/
theorem agrees_iff {tracked : UInt64 → Bool} {sk : TcpSock} (ht : tracked sk.addr = true) (skb : Segment) :
    Agrees tracked sk skb ↔ Plain sk skb := by
  have hw := tcpReceiveWindow_lt sk
  have hr : room sk skb = behind sk skb + (tcpReceiveWindow sk).toNat := rfl
  rw [Agrees, reported_iff ht, TcpSequence, past_iff, room_iff, Plain]
  omega

/-! ## Two segments of 100 bytes -/

/-- 1000 is acknowledged and expected next, and the window has 500 bytes. -/
def receiver : TcpSock := ⟨0xff00, afInet, .inl rfl, 1000, 1000, 500⟩

def segment (seq endSeq : UInt32) : Segment := ⟨⟨fun _ => 0, 0, 0, 14, 34⟩, seq, endSeq⟩

theorem the_next_segment_agrees :
    Agrees (fun _ => true) receiver (segment 1000 1100) ∧ TcpSequence receiver (segment 1000 1100) :=
  ⟨(agrees_iff rfl _).mpr (by decide +kernel), by decide⟩

theorem data_inside_the_window_is_reported :
    TcpSequence receiver (segment 1200 1300) ∧ ¬ Agrees (fun _ => true) receiver (segment 1200 1300) := by
  have hs : TcpSequence receiver (segment 1200 1300) := by decide
  have hr : tcpValidateIncoming true (fun _ => true) (some receiver) (some (segment 1200 1300)) true =
      some ⟨1, 0xff00, 0, 0⟩ := by decide
  exact ⟨hs, fun h => h.mp ⟨_, hr, rfl⟩ hs⟩

end Ksight.Netwatcher.Validate

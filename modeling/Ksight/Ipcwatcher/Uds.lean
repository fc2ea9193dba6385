/-
  Ksight.Ipcwatcher.Uds — the probes on Unix domain sockets
  (src/ipc/ipcwatcher/bpf/uds.bpf.c, include/ipcwatcher.h: `struct uds_event`).

  A send notes itself in `uds_data_map`, the payload is copied into the entry, and a
  receive submits the entry as an event and deletes it. The map is declared with a pointer
  to `struct uds_indicate` as its key type, so its keys are the first eight bytes of the
  structure they are read from: the sending socket (`mapKey`).

  `lookup_sendmsg` and `recvmsg_spec` say what the probes do to one slot and that they
  leave every other one alone.
-/

import Ksight.Lib.BoundedMap

namespace Ksight.Ipcwatcher

open Ksight.Lib

structure UdsIndicate where
  sendSk : UInt64
  recvSk : UInt64

structure UdsEvent where
  sendPid : UInt32
  recvPid : UInt32
  path : List UInt8
  size : UInt32
  type : UInt16
  timestamp : UInt64
  payload : List UInt8
  deriving DecidableEq

def UdsEvent.zero : UdsEvent := ⟨0, 0, [], 0, 0, 0, []⟩

def maxEvents : Nat := 262144

abbrev UdsDataMap := BoundedMap UInt64 UdsEvent maxEvents

/-- The part of the structure that the map reads as its key. -/
def mapKey (id : UdsIndicate) : UInt64 := id.sendSk

/-- `bpf_probe_read_kernel_str` into a buffer of `size` bytes. -/
def readKernelStr (size : Nat) (bytes : List UInt8) : List UInt8 := (bytes.takeWhile (· ≠ 0)).take (size - 1)

def maxPayloadLen : Nat := 64

def maxPathLen : Nat := 108

/-- The text of an unnamed socket's path: "<none>". -/
def noPath : List UInt8 := [60, 110, 111, 110, 101, 62]

/-- What the probes read of a socket; `addr` is the path it is bound to. -/
structure UnixSock where
  sk : UInt64
  peer : UInt64
  addr : Option (List UInt8)
  skType : UInt16

def maybeAddCreds (data : List UInt8) (sk other : UInt64) (m : UdsDataMap) : UdsDataMap :=
  m.modify (mapKey ⟨sk, other⟩) fun e => { e with payload := readKernelStr maxPayloadLen data }

/-- The part the two send probes share; `ktime` is the reading of the clock. -/
def noteSend (pid : UInt32) (sock : UnixSock) (len ktime : UInt64) (m : UdsDataMap) : UdsDataMap :=
  match m.lookupOrTryInit (mapKey ⟨sock.sk, sock.peer⟩) .zero with
  | none => m
  | some (_, m) => m.modify (mapKey ⟨sock.sk, sock.peer⟩) fun e =>
    { e with
      path := match sock.addr with
        | some path => readKernelStr maxPathLen path
        | none => noPath
      sendPid := pid
      size := len.toUInt32
      type := sock.skType
      timestamp := ktime / 1000 }

def unixStreamSendmsg := noteSend

def unixDgramSendmsg := noteSend

/-- The part the two receive probes share: the event submitted, if the slot has an entry
    and the ring buffer room for it. -/
def takeEvent (pid : UInt32) (sock : UnixSock) (reserved : Bool) (m : UdsDataMap) :
    Option UdsEvent × UdsDataMap :=
  match m.lookup (mapKey ⟨sock.peer, sock.sk⟩) with
  | none => (none, m)
  | some e =>
    if reserved then
      (some { e with recvPid := pid, path := readKernelStr maxPathLen e.path },
        m.delete (mapKey ⟨sock.peer, sock.sk⟩))
    else (none, m.delete (mapKey ⟨sock.peer, sock.sk⟩))

def unixStreamRecvmsg := takeEvent

def unixDgramRecvmsg := takeEvent

/-! ## One slot -/

structure Msg where
  sendPid : UInt32
  size : Nat
  deriving DecidableEq

/-- What an event says of a message. -/
structure Report where
  sendPid : UInt32
  recvPid : UInt32
  size : Nat
  deriving DecidableEq

def Msg.report (m : Msg) (recvPid : UInt32) : Report := ⟨m.sendPid, recvPid, m.size⟩

def UdsEvent.msg (e : UdsEvent) : Msg := ⟨e.sendPid, e.size.toNat⟩

def UdsEvent.report (e : UdsEvent) : Report := e.msg.report e.recvPid

/-- What a send leaves in its slot. -/
theorem lookup_sendmsg {m : UdsDataMap} {sock : UnixSock} (h : sock.sk ∈ m.keys ∨ m.keys.card < maxEvents)
    (pid : UInt32) (len ktime : UInt64) :
    (∃ e, (noteSend pid sock len ktime m).lookup sock.sk = some e ∧ e.msg = ⟨pid, len.toUInt32.toNat⟩) ∧
      ∀ s, s ≠ sock.sk → (noteSend pid sock len ktime m).lookup s = m.lookup s := by
  obtain ⟨n, hn, hl⟩ := BoundedMap.lookupOrTryInit_room h UdsEvent.zero
  unfold noteSend mapKey
  rw [hn]
  constructor
  · simp only [BoundedMap.lookup_modify_self, hl, if_true, Option.map_some]
    exact ⟨_, rfl, rfl⟩
  · intro s hs
    rw [BoundedMap.lookup_modify_ne _ _ hs, hl, if_neg hs]

/-- A payload changes neither who sent a message nor its length. -/
theorem lookup_creds (m : UdsDataMap) (data : List UInt8) (sk other s : UInt64) :
    ((maybeAddCreds data sk other m).lookup s).map UdsEvent.msg = (m.lookup s).map UdsEvent.msg := by
  unfold maybeAddCreds
  rw [BoundedMap.lookup_modify]
  split
  · rename_i hs
    subst hs
    rw [Option.map_map]
    rfl
  · rfl

/-- A receive empties the slot of its peer, and submits what was in it. -/
theorem recvmsg_spec (pid : UInt32) (sock : UnixSock) (m : UdsDataMap) :
    (takeEvent pid sock true m).1.map UdsEvent.msg = (m.lookup sock.peer).map UdsEvent.msg ∧
      (takeEvent pid sock true m).1.map UdsEvent.report = (m.lookup sock.peer).map (·.msg.report pid) ∧
      (takeEvent pid sock true m).2.lookup sock.peer = none ∧
      ∀ s, s ≠ sock.peer → (takeEvent pid sock true m).2.lookup s = m.lookup s := by
  unfold takeEvent mapKey
  rcases hl : m.lookup sock.peer with _ | e
  · exact ⟨rfl, rfl, hl, fun _ _ => rfl⟩
  · exact ⟨rfl, rfl, BoundedMap.lookup_delete_self _ _, fun s hs => BoundedMap.lookup_delete_ne _ hs⟩

end Ksight.Ipcwatcher

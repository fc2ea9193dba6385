/-
  Ksight.Ipcwatcher.UdsPrint — what is printed of an event
  (src/ipc/ipcwatcher/src/UdsBpf.cpp: `handleEvent`, `toHex`, `getUdsType`).

  `toHex` is given the length of the message, which is not that of the payload in the
  event: the probes copy at most 64 bytes. Beside the text, the model returns the indices
  that are read (`toHex_reads`).
-/

import Mathlib.Data.List.Basic
import Ksight.Ipcwatcher.Uds

namespace Ksight.Ipcwatcher.UdsPrint

inductive FormatType where
  | kPrintNormal8
  | kPrintWithPayload9
  | kReserve

structure Config where
  type : FormatType
  printPayloadHex : Bool

/-- A byte as two hexadecimal digits. -/
def hex2 (b : UInt8) : String := String.ofList [Nat.digitChar (b.toNat / 16), Nat.digitChar (b.toNat % 16)]

/-- The text, and the indices of `data` that are read for it. -/
def toHex (data : Nat → UInt8) (len : Nat) : String × List Nat :=
  (List.range len).foldl
    (fun (result, reads) i => (result ++ hex2 (data i) ++ (if i < len - 1 then " " else ""), reads ++ [i])) ("", [])

def getUdsType (enumId : UInt16) : String :=
  match enumId.toNat with
  | 1 => "SOCK_STREAM"
  | 2 => "SOCK_DGRAM"
  | 3 => "SOCK_RAW"
  | 4 => "SOCK_RDM"
  | 5 => "SOCK_SEQPACKET"
  | 6 => "SOCK_DCCP"
  | 10 => "SOCK_PACKET"
  | _ => "UNKNOWN"

/-- The payload as text, or as it is. -/
inductive Payload where
  | hex (text : String)
  | raw (bytes : List UInt8)

structure Fields where
  timestamp : UInt64
  sendPid : UInt32
  sendComm : String
  recvPid : UInt32
  recvComm : String
  size : UInt32
  type : String
  path : List UInt8

inductive Line where
  | normal (fields : Fields)
  | payload (fields : Fields) (payload : Payload)
  | reserve

/-- The line for an event, and the indices of the payload that `toHex` reads. `data` is the
    memory from `e->payload` on, `command` is what `findCommand` finds for a process. -/
def handleEvent (c : Config) (command : UInt32 → String) (e : UdsEvent) (data : Nat → UInt8) : Line × List Nat :=
  let fields : Fields := {
    timestamp := e.timestamp
    sendPid := e.sendPid
    sendComm := command e.sendPid
    recvPid := e.recvPid
    recvComm := command e.recvPid
    size := e.size
    type := getUdsType e.type
    path := e.path }
  match c.type with
  | .kPrintNormal8 => (.normal fields, [])
  | .kPrintWithPayload9 =>
    if c.printPayloadHex then
      let (text, reads) := toHex data e.size.toNat
      (.payload fields (.hex text), reads)
    else (.payload fields (.raw e.payload), [])
  | .kReserve => (.reserve, [])

theorem toHex_reads (data : Nat → UInt8) (len : Nat) : (toHex data len).2 = List.range len := by
  have hfold : ∀ (is : List Nat) (result : String) (reads : List Nat),
      (is.foldl (fun (result, reads) i =>
        (result ++ hex2 (data i) ++ (if i < len - 1 then " " else ""), reads ++ [i])) (result, reads)).2 =
          reads ++ is := by
    intro is
    induction is with
    | nil => intro _ reads; exact (List.append_nil reads).symm
    | cons i is ih =>
      intro result reads
      rw [List.foldl_cons, ih, List.append_assoc]
      rfl
  exact (hfold (List.range len) "" []).trans (List.nil_append _)

/-- The dump of an event stays inside the payload, whatever else is printed. -/
def DumpInside (e : UdsEvent) : Prop :=
  ∀ type command data, ∀ i ∈ (handleEvent ⟨type, true⟩ command e data).2, i < maxPayloadLen

theorem dumpInside_iff (e : UdsEvent) : DumpInside e ↔ e.size.toNat ≤ maxPayloadLen := by
  constructor
  · intro h
    by_contra hlt
    have hmem : maxPayloadLen ∈ (handleEvent ⟨.kPrintWithPayload9, true⟩ (fun _ => "") e fun _ => 0).2 := by
      simp only [handleEvent, if_true, toHex_reads, List.mem_range]
      omega
    exact absurd (h _ _ _ _ hmem) (Nat.lt_irrefl _)
  · intro hle type command data i hi
    cases type with
    | kPrintWithPayload9 =>
      simp only [handleEvent, if_true, toHex_reads, List.mem_range] at hi
      omega
    | kPrintNormal8 => cases hi
    | kReserve => cases hi

end Ksight.Ipcwatcher.UdsPrint

/-
  Ksight.Ipcwatcher.UdsPending — whose messages the entries of `uds_data_map` are
  (src/ipc/ipcwatcher/bpf/uds.bpf.c, src/UdsBpf.cpp).

  Any sockets send and receive in any order. A socket may change its peer, and others may
  have it as theirs. The map may drop any entry at any time; where it is full it does so
  before it takes a new one.

  An entry is found by its sender alone (`mapKey`), though it is made for a sender and a
  receiver. What it is follows from the sends of its sender since it was last taken: the
  first made it, and the length in it is that of the last (`Pending`, `Noted`).

  - `own_message_iff`: whoever finds an entry is the one it was made for (`Own`) if and only if the
    first of those sends was to it (`ToReceiver`). Else a receiver takes the message of
    another one (`another_receiver_takes`).
  - `dump_iff`: the dumps of all events read the payload only (`DumpsInside`) if and only if
    the last of those sends had at most 64 bytes (`Short`). A longer one is read past the end
    (`long_message_overruns`).
-/

import Mathlib.Logic.Function.Basic
import Ksight.Lib.Run
import Ksight.Ipcwatcher.UdsPrint
import Ksight.Ipcwatcher.UdsReports

namespace Ksight.Ipcwatcher.UdsPending

open Ksight.Lib
open UdsReports (SockType)
open UdsPrint (DumpInside dumpInside_iff)

/-- What a probe or a send was looking for, and what the entry it found was made for. -/
structure Use where
  id : UdsIndicate
  made : UdsIndicate

inductive Ev where
  | sendmsg (t : SockType) (pid : UInt32) (sock : UnixSock) (len ktime : UInt64)
  | creds (data : List UInt8) (sk other : UInt64)
  | recvmsg (t : SockType) (pid : UInt32) (sock : UnixSock) (reserved : Bool)
  | evict (sk : UInt64)

structure St where
  udsDataMap : UdsDataMap
  /-- The send that made the entry with this key. -/
  made : UInt64 → UdsIndicate
  uses : List Use
  udsEvents : List UdsEvent
  /-- The latest first. -/
  history : List Ev

def init : St := ⟨.empty, fun _ => ⟨0, 0⟩, [], [], []⟩

/-- The use of an entry, if one is found. -/
def St.use (st : St) (id : UdsIndicate) : List Use :=
  match st.udsDataMap.lookup (mapKey id) with
  | some _ => [⟨id, st.made (mapKey id)⟩]
  | none => []

/-- The send makes an entry where there is none. -/
def St.makes (st : St) (id : UdsIndicate) : UInt64 → UdsIndicate :=
  match st.udsDataMap.lookup (mapKey id) with
  | some _ => st.made
  | none => Function.update st.made (mapKey id) id

def step (e : Ev) (st : St) : Option St :=
  match e with
  | .sendmsg t pid sock len ktime =>
    if st.udsDataMap.HasRoom sock.sk then
      some { st with
        udsDataMap := t.sendmsg pid sock len ktime st.udsDataMap
        made := st.makes ⟨sock.sk, sock.peer⟩
        history := e :: st.history }
    else none
  | .creds data sk other =>
    some { st with
      udsDataMap := maybeAddCreds data sk other st.udsDataMap
      uses := st.uses ++ st.use ⟨sk, other⟩
      history := e :: st.history }
  | .recvmsg t pid sock reserved =>
    let r := t.recvmsg pid sock reserved st.udsDataMap
    some { st with
      udsDataMap := r.2
      uses := st.uses ++ st.use ⟨sock.peer, sock.sk⟩
      udsEvents := st.udsEvents ++ r.1.toList
      history := e :: st.history }
  | .evict sk => some { st with udsDataMap := st.udsDataMap.delete sk, history := e :: st.history }

/-! ## The sends since the last receive -/

/-- Of the sends of a socket since its entry was last taken: the peer of the first and the
    length of the last. -/
structure Pending where
  peer : UInt64
  len : UInt64

def pending : List Ev → UInt64 → Option Pending
  | [], _ => none
  | .sendmsg _ _ sock len _ :: h, s =>
    if sock.sk = s then
      match pending h s with
      | some p => some ⟨p.peer, len⟩
      | none => some ⟨sock.peer, len⟩
    else pending h s
  | .creds .. :: h, s => pending h s
  | .recvmsg _ _ sock _ :: h, s => if sock.peer = s then none else pending h s
  | .evict sk :: h, s => if sk = s then none else pending h s

/-! ## The laws -/

/-- What is found was made for the one that finds it. -/
def Own (st : St) : Prop := ∀ u ∈ st.uses, u.made = u.id

def DumpsInside (st : St) : Prop := ∀ e ∈ st.udsEvents, DumpInside e

/-- The condition for the first law: the first of the sends since the last receive was to
    the socket that receives. -/
def ToReceiver : Ev → St → Prop
  | .creds _ sk other, st => ∀ p ∈ pending st.history sk, p.peer = other
  | .recvmsg _ _ sock _, st => ∀ p ∈ pending st.history sock.peer, p.peer = sock.sk
  | _, _ => True

/-- The condition for the second law: the last of them fits the payload, its length taken
    modulo 2^32, when a receive submits an event. -/
def Short : Ev → St → Prop
  | .recvmsg _ _ sock reserved, st => reserved = true →
    ∀ p ∈ pending st.history sock.peer, p.len.toUInt32.toNat ≤ maxPayloadLen
  | _, _ => True

instance : ∀ (e : Ev) (st : St), Decidable (ToReceiver e st)
  | .creds .., _ => inferInstanceAs (Decidable (∀ _ ∈ _, _ = _))
  | .recvmsg .., _ => inferInstanceAs (Decidable (∀ _ ∈ _, _ = _))
  | .sendmsg .., _ => inferInstanceAs (Decidable True)
  | .evict .., _ => inferInstanceAs (Decidable True)

instance : ∀ (e : Ev) (st : St), Decidable (Short e st)
  | .recvmsg .., _ => inferInstanceAs (Decidable (_ = _ → ∀ _ ∈ _, _ ≤ _))
  | .creds .., _ => inferInstanceAs (Decidable True)
  | .sendmsg .., _ => inferInstanceAs (Decidable True)
  | .evict .., _ => inferInstanceAs (Decidable True)

/-! ## What the entries are -/

/-- An entry is there if there were sends since it was last taken; it was made for the first
    and has the length of the last. -/
def Noted (st : St) : Prop :=
  ∀ s, (st.udsDataMap.lookup s).map (fun e => (st.made s, e.size)) =
    (pending st.history s).map fun p => (⟨s, p.peer⟩, p.len.toUInt32)

theorem init_noted : Noted init := fun s => by simp [init, pending]

theorem sendmsg_size {m : UdsDataMap} {sock : UnixSock} (h : m.HasRoom sock.sk) (t : SockType) (pid : UInt32)
    (len ktime : UInt64) :
    (∃ e, (t.sendmsg pid sock len ktime m).lookup sock.sk = some e ∧ e.size = len.toUInt32) ∧
      ∀ s, s ≠ sock.sk → (t.sendmsg pid sock len ktime m).lookup s = m.lookup s := by
  have ht : t.sendmsg = noteSend := by cases t <;> rfl
  obtain ⟨⟨e, hl, hmsg⟩, hne⟩ := lookup_sendmsg h pid len ktime
  rw [ht]
  exact ⟨⟨e, hl, UInt32.toNat_inj.mp (congrArg Msg.size hmsg)⟩, hne⟩

theorem recvmsg_takes (t : SockType) (pid : UInt32) (sock : UnixSock) (reserved : Bool) (m : UdsDataMap) :
    (t.recvmsg pid sock reserved m).1.map UdsEvent.size =
        (if reserved then (m.lookup sock.peer).map UdsEvent.size else none) ∧
      ∀ s, (t.recvmsg pid sock reserved m).2.lookup s = if s = sock.peer then none else m.lookup s := by
  have ht : t.recvmsg = takeEvent := by cases t <;> rfl
  rw [ht]
  unfold takeEvent mapKey
  cases hl : m.lookup sock.peer with
  | none =>
    refine ⟨by cases reserved <;> rfl, fun s => ?_⟩
    by_cases h : s = sock.peer
    · rw [if_pos h, h]
      exact hl
    · rw [if_neg h]
  | some e => cases reserved <;> exact ⟨rfl, m.lookup_delete sock.peer⟩

theorem creds_size (m : UdsDataMap) (data : List UInt8) (sk other s : UInt64) :
    ((maybeAddCreds data sk other m).lookup s).map UdsEvent.size = (m.lookup s).map UdsEvent.size := by
  unfold maybeAddCreds
  rw [BoundedMap.lookup_modify]
  split
  · rename_i hs
    rw [Option.map_map, hs]
    rfl
  · rfl

theorem noted_of_size {st : St} {m : UdsDataMap} {s : UInt64}
    (h : (m.lookup s).map UdsEvent.size = (st.udsDataMap.lookup s).map UdsEvent.size) :
    (m.lookup s).map (fun e => (st.made s, e.size)) =
      (st.udsDataMap.lookup s).map fun e => (st.made s, e.size) := by
  have := congrArg (Option.map fun n => (st.made s, n)) h
  rwa [Option.map_map, Option.map_map] at this

theorem sendmsg_noted {st : St} (hn : Noted st) {t : SockType} {pid : UInt32} {sock : UnixSock}
    {len ktime : UInt64} (hroom : st.udsDataMap.HasRoom sock.sk) (s : UInt64) :
    ((t.sendmsg pid sock len ktime st.udsDataMap).lookup s).map
        (fun e => (st.makes ⟨sock.sk, sock.peer⟩ s, e.size)) =
      (pending (.sendmsg t pid sock len ktime :: st.history) s).map fun p => (⟨s, p.peer⟩, p.len.toUInt32) := by
  obtain ⟨⟨e, hl, hsize⟩, hne⟩ := sendmsg_size hroom t pid len ktime
  have hs := hn s
  by_cases h : sock.sk = s
  · subst h
    rw [hl, Option.map_some, hsize, pending, if_pos rfl]
    cases hp : pending st.history sock.sk with
    | some p =>
      rw [hp] at hs
      obtain ⟨e', hl', he'⟩ := Option.map_eq_some_iff.mp hs
      have hmade : st.made sock.sk = ⟨sock.sk, p.peer⟩ := congrArg Prod.fst he'
      simp only [St.makes, mapKey, hl', Option.map_some, hmade]
    | none =>
      rw [hp] at hs
      simp only [St.makes, mapKey, Option.map_eq_none_iff.mp hs, Function.update_self, Option.map_some]
  · have hmakes : st.makes ⟨sock.sk, sock.peer⟩ s = st.made s := by
      cases hl : st.udsDataMap.lookup sock.sk with
      | some e' => simp only [St.makes, mapKey, hl]
      | none => simp only [St.makes, mapKey, hl, Function.update_of_ne (Ne.symm h)]
    rw [hne s (Ne.symm h), hmakes, pending, if_neg h]
    exact hs

theorem step_noted {e : Ev} {st st' : St} (hn : Noted st) (h : step e st = some st') : Noted st' := by
  intro s
  cases e with
  | sendmsg t pid sock len ktime =>
    simp only [step, Option.ite_none_right_eq_some, Option.some.injEq] at h
    rw [← h.2]
    exact sendmsg_noted hn h.1 s
  | creds data sk other =>
    obtain rfl := Option.some.inj h
    exact (noted_of_size (creds_size st.udsDataMap data sk other s)).trans (hn s)
  | recvmsg t pid sock reserved =>
    obtain rfl := Option.some.inj h
    simp only [(recvmsg_takes t pid sock reserved st.udsDataMap).2, pending, eq_comm (a := sock.peer)]
    split
    · rfl
    · exact hn s
  | evict sk =>
    obtain rfl := Option.some.inj h
    simp only [BoundedMap.lookup_delete, pending, eq_comm (a := sk)]
    split
    · rfl
    · exact hn s

/-! ## When the laws hold -/

/-- What is found was made for the one that looks, or is not found, if and only if the first
    send was to it. -/
theorem use_own_iff {st : St} (hn : Noted st) (id : UdsIndicate) :
    (∀ u ∈ st.use id, u.made = u.id) ↔ ∀ p ∈ pending st.history id.sendSk, p.peer = id.recvSk := by
  have hs := hn id.sendSk
  unfold St.use mapKey
  cases hl : st.udsDataMap.lookup id.sendSk with
  | none =>
    rw [hl] at hs
    simp [Option.map_eq_none_iff.mp hs.symm]
  | some e =>
    rw [hl] at hs
    obtain ⟨p, hp, he⟩ := Option.map_eq_some_iff.mp hs.symm
    have hmade : st.made id.sendSk = ⟨id.sendSk, p.peer⟩ := (congrArg Prod.fst he).symm
    simp only [List.forall_mem_singleton, hp, Option.mem_some_iff, forall_eq', hmade]
    exact ⟨fun h => congrArg UdsIndicate.recvSk h, fun h => by rw [h]⟩

theorem recvmsg_dump_iff {st : St} (hn : Noted st) (t : SockType) (pid : UInt32) (sock : UnixSock)
    (reserved : Bool) :
    (∀ e ∈ (t.recvmsg pid sock reserved st.udsDataMap).1.toList, DumpInside e) ↔
      (reserved = true → ∀ p ∈ pending st.history sock.peer, p.len.toUInt32.toNat ≤ maxPayloadLen) := by
  have hsize := (recvmsg_takes t pid sock reserved st.udsDataMap).1
  have hs : (st.udsDataMap.lookup sock.peer).map UdsEvent.size =
      (pending st.history sock.peer).map fun p => p.len.toUInt32 := by
    have := congrArg (Option.map Prod.snd) (hn sock.peer)
    rwa [Option.map_map, Option.map_map] at this
  rw [hs] at hsize
  simp only [Option.mem_toList, dumpInside_iff]
  change (∀ e ∈ (t.recvmsg pid sock reserved st.udsDataMap).1, e.size.toNat ≤ maxPayloadLen) ↔ _
  have hall : (∀ e ∈ (t.recvmsg pid sock reserved st.udsDataMap).1, e.size.toNat ≤ maxPayloadLen) ↔
      ∀ n ∈ (t.recvmsg pid sock reserved st.udsDataMap).1.map UdsEvent.size, n.toNat ≤ maxPayloadLen := by
    simp
  rw [hall, hsize]
  cases reserved <;> simp

theorem step_own {e : Ev} {st st' : St} (hn : Noted st) (h : step e st = some st') :
    Own st' ↔ Own st ∧ ToReceiver e st := by
  cases e with
  | sendmsg t pid sock len ktime =>
    simp only [step, Option.ite_none_right_eq_some, Option.some.injEq] at h
    rw [← h.2]
    exact (and_iff_left trivial).symm
  | creds data sk other =>
    obtain rfl := Option.some.inj h
    simp only [Own, List.forall_mem_append]
    exact and_congr_right fun _ => use_own_iff hn ⟨sk, other⟩
  | recvmsg t pid sock reserved =>
    obtain rfl := Option.some.inj h
    simp only [Own, List.forall_mem_append]
    exact and_congr_right fun _ => use_own_iff hn ⟨sock.peer, sock.sk⟩
  | evict sk =>
    obtain rfl := Option.some.inj h
    exact (and_iff_left trivial).symm

theorem step_dump {e : Ev} {st st' : St} (hn : Noted st) (h : step e st = some st') :
    DumpsInside st' ↔ DumpsInside st ∧ Short e st := by
  cases e with
  | recvmsg t pid sock reserved =>
    obtain rfl := Option.some.inj h
    simp only [DumpsInside, List.forall_mem_append]
    exact and_congr_right fun _ => recvmsg_dump_iff hn t pid sock reserved
  | sendmsg t pid sock len ktime =>
    simp only [step, Option.ite_none_right_eq_some, Option.some.injEq] at h
    rw [← h.2]
    exact (and_iff_left trivial).symm
  | creds data sk other =>
    obtain rfl := Option.some.inj h
    exact (and_iff_left trivial).symm
  | evict sk =>
    obtain rfl := Option.some.inj h
    exact (and_iff_left trivial).symm

theorem own_message_iff {es : List Ev} {st : St} (h : exec step es init = some st) :
    Own st ↔ execIf step ToReceiver es init = some st :=
  holds_iff_of_step (fun _ _ _ hn hs => step_noted hn hs) (fun _ _ _ hn hs => step_own hn hs) init_noted
    (fun _ hu => by cases hu) h

theorem dump_iff {es : List Ev} {st : St} (h : exec step es init = some st) :
    DumpsInside st ↔ execIf step Short es init = some st :=
  holds_iff_of_step (fun _ _ _ hn hs => step_noted hn hs) (fun _ _ _ hn hs => step_dump hn hs) init_noted
    (fun _ hu => by cases hu) h

/-! ## A few sockets -/

/-- A datagram socket with a peer. -/
def dgram (sk peer : UInt64) : UnixSock := ⟨sk, peer, none, 2⟩

/-- Sockets 8 and 16 talk to each other, and 24 has 16 as its peer. -/
theorem own_messages :
    ∃ st, exec step [.sendmsg .dgram 1 (dgram 8 16) 64 0, .creds [104, 105] 8 16, .sendmsg .dgram 3 (dgram 24 16) 9 0,
        .recvmsg .dgram 2 (dgram 16 8) true, .sendmsg .dgram 2 (dgram 16 8) 5 0,
        .recvmsg .dgram 1 (dgram 8 16) true] init = some st ∧
      st.udsEvents.map UdsEvent.size = [64, 5] ∧ st.uses.length = 3 ∧ Own st := by
  obtain ⟨st, hexec, hif, hs⟩ := execIf_any step ToReceiver init
    [.sendmsg .dgram 1 (dgram 8 16) 64 0, .creds [104, 105] 8 16, .sendmsg .dgram 3 (dgram 24 16) 9 0,
      .recvmsg .dgram 2 (dgram 16 8) true, .sendmsg .dgram 2 (dgram 16 8) 5 0, .recvmsg .dgram 1 (dgram 8 16) true]
    (fun st => decide (st.udsEvents.map UdsEvent.size = [64, 5] ∧ st.uses.length = 3)) (by decide +kernel)
  obtain ⟨hsize, hlen⟩ := of_decide_eq_true hs
  exact ⟨st, hexec, hsize, hlen, (own_message_iff hexec).mpr hif⟩

/-- Socket 24 has 8 as its peer, which sends to 16: a receive on 24 takes the message. -/
theorem another_receiver_takes : ∃ st, Run step anyEvent init st ∧ ¬ Own st := by
  obtain ⟨st, hr, hs⟩ := run_of_exec_any step init
    [.sendmsg .dgram 1 (dgram 8 16) 5 0, .recvmsg .dgram 3 (dgram 24 8) true]
    (fun st => st.uses.any fun u => decide (u.made.recvSk = 16 ∧ u.id.recvSk = 24)) (by decide +kernel)
  obtain ⟨u, hu, ht⟩ := List.any_eq_true.mp hs
  obtain ⟨hm, hi⟩ := of_decide_eq_true ht
  refine ⟨st, hr, fun ho => ?_⟩
  have hown := congrArg UdsIndicate.recvSk (ho u hu)
  rw [hm, hi] at hown
  exact absurd hown (by decide)

theorem short_message_is_inside :
    ∃ st, exec step [.sendmsg .stream 1 (dgram 8 16) 64 0, .recvmsg .stream 2 (dgram 16 8) true] init = some st ∧
      st.udsEvents.map UdsEvent.size = [64] ∧ DumpsInside st := by
  obtain ⟨st, hexec, hif, hs⟩ := execIf_any step Short init
    [.sendmsg .stream 1 (dgram 8 16) 64 0, .recvmsg .stream 2 (dgram 16 8) true]
    (fun st => decide (st.udsEvents.map UdsEvent.size = [64])) (by decide +kernel)
  exact ⟨st, hexec, of_decide_eq_true hs, (dump_iff hexec).mpr hif⟩

/-- A message of 65 bytes. -/
theorem long_message_overruns : ∃ st, Run step anyEvent init st ∧ ¬ DumpsInside st := by
  obtain ⟨st, hr, hs⟩ := run_of_exec_any step init
    [.sendmsg .stream 1 (dgram 8 16) 65 0, .recvmsg .stream 2 (dgram 16 8) true]
    (fun st => st.udsEvents.any fun e => decide (e.size = 65)) (by decide +kernel)
  obtain ⟨e, he, hsize⟩ := List.any_eq_true.mp hs
  refine ⟨st, hr, fun hd => ?_⟩
  have hle := (dumpInside_iff e).mp (hd e he)
  rw [of_decide_eq_true hsize] at hle
  exact absurd hle (by decide)

end Ksight.Ipcwatcher.UdsPending

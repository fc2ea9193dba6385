/-
  Ksight.Ipcwatcher.UdsReports — the events of the messages on connected Unix sockets
  (src/ipc/ipcwatcher/bpf/uds.bpf.c).

  A send notes itself when it is entered and its message is in the receive queue of the
  peer when it returns. A receive submits its event when it is entered and takes messages
  when it returns. The calls of any processes on any pairs of sockets come in any order.

  The law (`Reported`): the events are, one for one, the messages received so far and
  those announced by receives that have not returned. `reported_once`: it holds in every
  run in which sends and receives take turns (`TakesTurns`). Two sends before one receive
  lose the first message's event (`second_send_overwrites`), and so does a receive that
  is entered before its message is sent (`early_receive_is_unreported`).
-/

import Mathlib.Logic.Function.Basic
import Mathlib.Data.List.Perm.Basic
import Ksight.Lib.Run
import Ksight.Ipcwatcher.Uds

namespace Ksight.Ipcwatcher.UdsReports

open Ksight.Lib

inductive SockType where
  | stream
  | dgram

def SockType.sendmsg : SockType → UInt32 → UnixSock → UInt64 → UInt64 → UdsDataMap → UdsDataMap
  | .stream => unixStreamSendmsg
  | .dgram => unixDgramSendmsg

def SockType.recvmsg : SockType → UInt32 → UnixSock → Bool → UdsDataMap → Option UdsEvent × UdsDataMap
  | .stream => unixStreamRecvmsg
  | .dgram => unixDgramRecvmsg

/-- A set of connected pairs: the other end of each socket. -/
structure Pairs where
  peer : UInt64 → UInt64
  peer_peer : ∀ s, peer (peer s) = s

/-- A send that has not returned. -/
structure SendCall where
  sk : UInt64
  msg : Msg

/-- A receive that has not returned, and the message its probe found. -/
structure RecvCall where
  pid : UInt32
  sk : UInt64
  found : Option Msg

structure St where
  udsDataMap : UdsDataMap
  udsEvents : List UdsEvent
  /-- The calls in progress, in the order in which they were entered. -/
  sends : List SendCall
  recvs : List RecvCall
  /-- The receive queue of each socket. -/
  queue : UInt64 → List Msg
  received : List Report

def init : St := ⟨.empty, [], [], [], fun _ => [], []⟩

/-- The kernel's bound on the length of one call. -/
def maxRwCount : Nat := 0x7ffff000

inductive Ev where
  | sendmsg (t : SockType) (pid : UInt32) (sk len : UInt64) (addr : Option (List UInt8)) (skType : UInt16)
      (ktime : UInt64)
  | creds (data : List UInt8) (sk : UInt64)
  /-- The `i`-th send in progress returns, its message queued if it succeeded. -/
  | sendReturn (i : Nat) (ok : Bool)
  | recvmsg (t : SockType) (pid : UInt32) (sk : UInt64)
  /-- The `i`-th receive in progress returns. It is the first to take bytes of `n` messages. -/
  | recvReturn (i n : Nat)

variable (c : Pairs)

/-- `udsDataMap` and the ring buffer never fill: the first is a guard, the second the
    `true` that the receive probes are given. -/
def step : Ev → St → Option St
  | .sendmsg t pid sk len addr skType ktime, st =>
    if len.toNat ≤ maxRwCount ∧ (sk ∈ st.udsDataMap.keys ∨ st.udsDataMap.keys.card < maxEvents) then
      some { st with
        udsDataMap := t.sendmsg pid ⟨sk, c.peer sk, addr, skType⟩ len ktime st.udsDataMap
        sends := st.sends ++ [⟨sk, ⟨pid, len.toNat⟩⟩] }
    else none
  | .creds data sk, st => some { st with udsDataMap := maybeAddCreds data sk (c.peer sk) st.udsDataMap }
  | .sendReturn i ok, st =>
    match st.sends[i]? with
    | none => none
    | some call =>
      some { st with
        sends := st.sends.eraseIdx i
        queue := if ok then
            Function.update st.queue (c.peer call.sk) (st.queue (c.peer call.sk) ++ [call.msg])
          else st.queue }
  | .recvmsg t pid sk, st =>
    let r := t.recvmsg pid ⟨sk, c.peer sk, none, 0⟩ true st.udsDataMap
    some { st with
      udsDataMap := r.2
      udsEvents := st.udsEvents ++ r.1.toList
      recvs := st.recvs ++ [⟨pid, sk, r.1.map UdsEvent.msg⟩] }
  | .recvReturn i n, st =>
    match st.recvs[i]? with
    | none => none
    | some call =>
      if n ≤ (st.queue call.sk).length then
        some { st with
          recvs := st.recvs.eraseIdx i
          queue := Function.update st.queue call.sk ((st.queue call.sk).drop n)
          received := st.received ++ ((st.queue call.sk).take n).map (·.report call.pid) }
      else none

/-! ## The law -/

/-- The report a receive in progress has submitted. -/
def RecvCall.report (call : RecvCall) : Option Report := call.found.map (·.report call.pid)

def Reported (st : St) : Prop :=
  (st.udsEvents.map UdsEvent.report).Perm (st.received ++ st.recvs.filterMap RecvCall.report)

/-- The condition: a send is entered when the last message noted on its socket has been
    found by a receive, it succeeds, and the sends of one socket return in their order. A
    receive whose probe found a message takes one, after the earlier receives of its
    socket that found one; a receive whose probe found none takes none. -/
def TakesTurns : Ev → St → Prop
  | .sendmsg _ _ sk .., st => st.udsDataMap.lookup sk = none
  | .sendReturn i ok, st => ok = true ∧ ∀ call ∈ st.sends[i]?, ∀ c' ∈ st.sends.take i, c'.sk ≠ call.sk
  | .recvReturn i n, st => ∀ call ∈ st.recvs[i]?,
    if call.found = none then n = 0
    else n = 1 ∧ ∀ c' ∈ st.recvs.take i, c'.sk = call.sk → c'.found = none
  | _, _ => True

instance : ∀ (e : Ev) (st : St), Decidable (TakesTurns e st)
  | .sendmsg .., _ => inferInstanceAs (Decidable (_ = _))
  | .creds .., _ => inferInstanceAs (Decidable True)
  | .sendReturn .., _ => inferInstanceAs (Decidable (_ ∧ _))
  | .recvmsg .., _ => inferInstanceAs (Decidable True)
  | .recvReturn .., _ => inferInstanceAs (Decidable (∀ _ ∈ _, _))

/-! ## Calls in progress -/

/-- The messages of the sends in progress on a socket. -/
def St.sending (st : St) (s : UInt64) : List Msg :=
  st.sends.filterMap fun call => if call.sk = s then some call.msg else none

/-- The messages that the receives in progress on a socket have found. -/
def St.found (st : St) (r : UInt64) : List Msg :=
  st.recvs.filterMap fun call => if call.sk = r then call.found else none

/-- The message noted in a slot. -/
def St.noted (st : St) (s : UInt64) : List Msg := ((st.udsDataMap.lookup s).map UdsEvent.msg).toList

/-- The messages that are under way to a socket, in order, are those its receives have
    found and the one in the slot. -/
structure Inv (st : St) : Prop where
  underway : ∀ r, st.queue r ++ st.sending (c.peer r) = st.found r ++ st.noted (c.peer r)
  reported : Reported st

theorem init_inv : Inv c init where
  underway _ := by simp [init, St.sending, St.found, St.noted]
  reported := .nil

section
variable {α β : Type} {l : List α} {i : Nat} {a : α} (h : l[i]? = some a) (f : α → Option β)
include h

theorem eq_take_cons_drop : l = l.take i ++ a :: l.drop (i + 1) := by
  obtain ⟨hi, rfl⟩ := List.getElem?_eq_some_iff.mp h
  rw [List.getElem_cons_drop, List.take_append_drop]

/-- A call that comes first of those `f` keeps. -/
theorem filterMap_eraseIdx_first {b : β} (hf : f a = some b) (h0 : ∀ x ∈ l.take i, f x = none) :
    l.filterMap f = b :: (l.eraseIdx i).filterMap f := by
  rw [List.eraseIdx_eq_take_drop_succ, List.filterMap_append, List.filterMap_eq_nil_iff.mpr h0, List.nil_append]
  conv => lhs; rw [eq_take_cons_drop h]
  rw [List.filterMap_append, List.filterMap_eq_nil_iff.mpr h0, List.nil_append, List.filterMap_cons_some hf]

theorem filterMap_eraseIdx_none (hf : f a = none) : l.filterMap f = (l.eraseIdx i).filterMap f := by
  conv => lhs; rw [eq_take_cons_drop h]
  rw [List.eraseIdx_eq_take_drop_succ, List.filterMap_append, List.filterMap_append, List.filterMap_cons_none hf]

theorem filterMap_eraseIdx_perm {b : β} (hf : f a = some b) :
    (l.filterMap f).Perm (b :: (l.eraseIdx i).filterMap f) := by
  conv => lhs; rw [eq_take_cons_drop h]
  rw [List.eraseIdx_eq_take_drop_succ, List.filterMap_append, List.filterMap_append, List.filterMap_cons_some hf]
  exact List.perm_middle

end

/-! ## One step -/

variable {c}

theorem sendmsg_inv {st : St} {sk len ktime : UInt64} (hi : Inv c st) (h0 : st.udsDataMap.lookup sk = none)
    (hl : len.toNat ≤ maxRwCount) (hroom : sk ∈ st.udsDataMap.keys ∨ st.udsDataMap.keys.card < maxEvents)
    (pid : UInt32) (addr : Option (List UInt8)) (skType : UInt16) :
    Inv c { st with
      udsDataMap := noteSend pid ⟨sk, c.peer sk, addr, skType⟩ len ktime st.udsDataMap
      sends := st.sends ++ [⟨sk, ⟨pid, len.toNat⟩⟩] } := by
  have hsock : (⟨sk, c.peer sk, addr, skType⟩ : UnixSock).sk ∈ st.udsDataMap.keys ∨
      st.udsDataMap.keys.card < maxEvents := hroom
  obtain ⟨⟨e, he, hmsg⟩, hne⟩ := lookup_sendmsg hsock pid len ktime
  have hsize : len.toUInt32.toNat = len.toNat := by
    unfold maxRwCount at hl
    rw [UInt64.toNat_toUInt32]
    omega
  rw [hsize] at hmsg
  refine ⟨fun r => ?_, hi.reported⟩
  have hu := hi.underway r
  by_cases hr : c.peer r = sk
  · subst hr
    simp only [St.sending, St.found, St.noted, h0, he, hmsg, List.filterMap_append, Option.map_none,
      Option.map_some, Option.toList_none, Option.toList_some, List.append_nil] at hu ⊢
    rw [← List.append_assoc, hu]
    simp
  · have hr' : sk ≠ c.peer r := fun h => hr h.symm
    simpa [St.sending, St.found, St.noted, hne _ hr, hr'] using hu

theorem creds_inv {st : St} (hi : Inv c st) (data : List UInt8) (sk : UInt64) :
    Inv c { st with udsDataMap := maybeAddCreds data sk (c.peer sk) st.udsDataMap } := by
  refine ⟨fun r => ?_, hi.reported⟩
  show st.queue r ++ st.sending (c.peer r) = st.found r ++ Option.toList (Option.map UdsEvent.msg _)
  rw [lookup_creds]
  exact hi.underway r

/-- The oldest send on its socket puts its message at the end of the queue. -/
theorem sendReturn_inv {st : St} {i : Nat} {call : SendCall} (hi : Inv c st) (h : st.sends[i]? = some call)
    (hfirst : ∀ c' ∈ st.sends.take i, c'.sk ≠ call.sk) :
    Inv c { st with
      sends := st.sends.eraseIdx i
      queue := Function.update st.queue (c.peer call.sk) (st.queue (c.peer call.sk) ++ [call.msg]) } := by
  refine ⟨fun r => ?_, hi.reported⟩
  have hu := hi.underway r
  by_cases hr : r = c.peer call.sk
  · subst hr
    rw [c.peer_peer] at hu ⊢
    have hs : st.sending call.sk = call.msg :: (st.sends.eraseIdx i).filterMap
        fun c' => if c'.sk = call.sk then some c'.msg else none :=
      filterMap_eraseIdx_first h _ (if_pos rfl) fun c' hc' => if_neg (hfirst c' hc')
    rw [hs] at hu
    show Function.update st.queue (c.peer call.sk) _ (c.peer call.sk) ++ List.filterMap _ _ = _
    rw [Function.update_self, List.append_assoc]
    exact hu
  · have hr' : call.sk ≠ c.peer r := fun e => hr (by rw [e, c.peer_peer])
    have hs : st.sending (c.peer r) = (st.sends.eraseIdx i).filterMap
        fun c' => if c'.sk = c.peer r then some c'.msg else none :=
      filterMap_eraseIdx_none h _ (if_neg hr')
    show Function.update st.queue (c.peer call.sk) _ r ++ List.filterMap _ _ = _
    rw [Function.update_of_ne hr, ← hs]
    exact hu

/-- The probe moves what was noted to what the new call has found, and reports it. -/
theorem recvmsg_inv {st : St} (hi : Inv c st) (pid : UInt32) (sk : UInt64) {ev : Option UdsEvent}
    {m : UdsDataMap} (h : takeEvent pid ⟨sk, c.peer sk, none, 0⟩ true st.udsDataMap = (ev, m)) :
    Inv c { st with
      udsDataMap := m
      udsEvents := st.udsEvents ++ ev.toList
      recvs := st.recvs ++ [⟨pid, sk, ev.map UdsEvent.msg⟩] } := by
  obtain ⟨hmsg, hreport, hself, hne⟩ := recvmsg_spec pid ⟨sk, c.peer sk, none, 0⟩ st.udsDataMap
  rw [h] at hmsg hreport hself hne
  constructor
  · intro r
    have hu := hi.underway r
    by_cases hr : r = sk
    · subst hr
      simp only [St.noted] at hu
      simp only [St.sending, St.found, St.noted, List.filterMap_append, hself, hmsg] at hu ⊢
      rw [hu]
      cases st.udsDataMap.lookup (c.peer r) <;> simp
    · have hp : c.peer r ≠ c.peer sk := fun e => hr (by rw [← c.peer_peer r, e, c.peer_peer])
      have hr' : sk ≠ r := fun e => hr e.symm
      simpa [St.sending, St.found, St.noted, hne _ hp, hr'] using hu
  · have hr := hi.reported
    unfold Reported at hr ⊢
    rw [List.map_append, List.filterMap_append, ← List.append_assoc]
    apply hr.append
    simp only [List.filterMap_cons, List.filterMap_nil, RecvCall.report, hmsg, Option.map_map]
    cases ev with
    | none =>
      rcases hl : st.udsDataMap.lookup (c.peer sk) with _ | e
      · simp
      · rw [hl] at hmsg; cases hmsg
    | some e' =>
      rcases hl : st.udsDataMap.lookup (c.peer sk) with _ | e
      · rw [hl] at hmsg; cases hmsg
      · rw [hl] at hreport
        simpa using hreport

/-- A receive that found nothing and takes nothing. -/
theorem recvReturn_inv_none {st : St} {i : Nat} {call : RecvCall} (hi : Inv c st) (h : st.recvs[i]? = some call)
    (hf : call.found = none) :
    Inv c { st with recvs := st.recvs.eraseIdx i } where
  underway r := by
    have hfound : st.found r = (st.recvs.eraseIdx i).filterMap fun c' => if c'.sk = r then c'.found else none :=
      filterMap_eraseIdx_none h _ (by simp [hf])
    have hu := hi.underway r
    rw [hfound] at hu
    exact hu
  reported := by
    have hr := hi.reported
    unfold Reported at hr ⊢
    rw [filterMap_eraseIdx_none h RecvCall.report (by simp [RecvCall.report, hf])] at hr
    exact hr

/-- The first receive on its socket that found a message takes that message. -/
theorem recvReturn_inv_some {st : St} {i : Nat} {call : RecvCall} {m m' : Msg} {q : List Msg} (hi : Inv c st)
    (h : st.recvs[i]? = some call) (hf : call.found = some m) (hq : st.queue call.sk = m' :: q)
    (hfirst : ∀ c' ∈ st.recvs.take i, c'.sk = call.sk → c'.found = none) :
    Inv c { st with
      recvs := st.recvs.eraseIdx i
      queue := Function.update st.queue call.sk q
      received := st.received ++ [m'.report call.pid] } := by
  have hfound : st.found call.sk =
      m :: (st.recvs.eraseIdx i).filterMap fun c' => if c'.sk = call.sk then c'.found else none := by
    apply filterMap_eraseIdx_first h _ (by simp [hf])
    intro c' hc'
    by_cases e : c'.sk = call.sk
    · simp [e, hfirst c' hc' e]
    · simp [e]
  have hu := hi.underway call.sk
  rw [hq, hfound] at hu
  obtain ⟨rfl, hu'⟩ := List.cons.inj hu
  constructor
  · intro r
    by_cases hr : r = call.sk
    · subst hr
      show Function.update st.queue call.sk q call.sk ++ _ = List.filterMap _ _ ++ _
      rw [Function.update_self]
      exact hu'
    · have hfr : st.found r = (st.recvs.eraseIdx i).filterMap fun c' => if c'.sk = r then c'.found else none :=
        filterMap_eraseIdx_none h _ (if_neg fun e => hr e.symm)
      have hur := hi.underway r
      rw [hfr] at hur
      show Function.update st.queue call.sk q r ++ _ = List.filterMap _ _ ++ _
      rw [Function.update_of_ne hr]
      exact hur
  · have hrep : RecvCall.report call = some (m'.report call.pid) := by simp [RecvCall.report, hf]
    have hr := hi.reported
    unfold Reported at hr ⊢
    rw [List.append_assoc]
    exact hr.trans ((filterMap_eraseIdx_perm h RecvCall.report hrep).append_left _)

theorem step_inv {e : Ev} {st st' : St} (hi : Inv c st) (ht : TakesTurns e st) (h : step c e st = some st') :
    Inv c st' := by
  cases e with
  | sendmsg t pid sk len addr skType ktime =>
    have hsend : t.sendmsg = noteSend := by cases t <;> rfl
    simp only [step, Option.ite_none_right_eq_some, Option.some.injEq] at h
    obtain ⟨⟨hl, hroom⟩, rfl⟩ := h
    rw [hsend]
    exact sendmsg_inv hi ht hl hroom pid addr skType
  | creds data sk =>
    cases h
    exact creds_inv hi data sk
  | sendReturn i ok =>
    obtain ⟨rfl, hfirst⟩ := ht
    simp only [step] at h
    split at h
    · cases h
    · rename_i call hcall
      cases h
      exact sendReturn_inv hi hcall (hfirst call hcall)
  | recvmsg t pid sk =>
    have hrecv : t.recvmsg = takeEvent := by cases t <;> rfl
    cases h
    rw [hrecv]
    exact recvmsg_inv hi pid sk rfl
  | recvReturn i n =>
    simp only [step] at h
    split at h
    · cases h
    · rename_i call hcall
      simp only [Option.ite_none_right_eq_some, Option.some.injEq] at h
      obtain ⟨hn, rfl⟩ := h
      have hc := ht call hcall
      rcases hf : call.found with _ | m
      · rw [if_pos hf] at hc
        subst hc
        have := recvReturn_inv_none hi hcall hf
        simpa using this
      · rw [if_neg (by simp [hf])] at hc
        obtain ⟨rfl, hfirst⟩ := hc
        obtain ⟨m', q, hq⟩ := List.exists_cons_of_length_pos hn
        have := recvReturn_inv_some hi hcall hf hq hfirst
        simpa [hq] using this

variable (c)

/-- In a run whose sends and receives take turns, the events are the messages received and
    those that receives in progress have announced, each once. -/
theorem reported_once {st : St} (h : Run (step c) TakesTurns init st) : Reported st :=
  (h.inv (init_inv c) fun _ _ _ hi ht hs => step_inv hi ht hs).reported

/-! ## Sockets 2 and 3 -/

def onePair : Pairs where
  peer s := s ^^^ 1
  peer_peer s := by rw [UInt64.xor_assoc, UInt64.xor_self, UInt64.xor_zero]

/-- Process 7 sends `len` bytes on socket 2. -/
def send (len : UInt64) : Ev := .sendmsg .stream 7 2 len none 1 0

/-- Process 9 receives on socket 3. -/
def receive : Ev := .recvmsg .stream 9 3

theorem alternating_is_reported :
    ∃ st, Run (step onePair) TakesTurns init st ∧ st.received = [⟨7, 9, 100⟩, ⟨7, 9, 200⟩] ∧ Reported st := by
  obtain ⟨st, hr, hs⟩ := run_of_execIf_any (step onePair) TakesTurns init
    [send 100, .sendReturn 0 true, receive, .recvReturn 0 1, send 200, receive, .sendReturn 0 true, .recvReturn 0 1]
    (fun st => decide (st.received = [⟨7, 9, 100⟩, ⟨7, 9, 200⟩])) (by decide +kernel)
  exact ⟨st, hr, of_decide_eq_true hs, reported_once onePair hr⟩

/-- Two sends and then two receives: both messages arrive, the first one's event does not. -/
theorem second_send_overwrites :
    ∃ st, Run (step onePair) anyEvent init st ∧ st.recvs.length = 0 ∧ ¬ Reported st := by
  obtain ⟨st, hr, hs⟩ := run_of_exec_any (step onePair) init
    [send 100, .sendReturn 0 true, send 200, .sendReturn 0 true, receive, .recvReturn 0 1, receive, .recvReturn 0 1]
    (fun st => decide (st.recvs.length = 0 ∧ st.udsEvents.length = 1 ∧ st.received.length = 2)) (by decide +kernel)
  obtain ⟨h0, h1, h2⟩ := of_decide_eq_true hs
  refine ⟨st, hr, h0, fun hrep => ?_⟩
  have := hrep.length_eq
  simp [List.length_eq_zero_iff.mp h0, h1, h2] at this

/-- A receive that waits for its message submits no event for it. -/
theorem early_receive_is_unreported :
    ∃ st, Run (step onePair) anyEvent init st ∧ st.received = [⟨7, 9, 100⟩] ∧ ¬ Reported st := by
  obtain ⟨st, hr, hs⟩ := run_of_exec_any (step onePair) init
    [receive, send 100, .sendReturn 0 true, .recvReturn 0 1]
    (fun st => decide (st.received = [⟨7, 9, 100⟩] ∧ st.udsEvents.length = 0)) (by decide +kernel)
  obtain ⟨h1, h0⟩ := of_decide_eq_true hs
  refine ⟨st, hr, h1, fun hrep => ?_⟩
  have := hrep.length_eq
  simp [h0, h1] at this

end Ksight.Ipcwatcher.UdsReports

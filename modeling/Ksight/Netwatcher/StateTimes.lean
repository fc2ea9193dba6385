/-
  Ksight.Netwatcher.StateTimes — how long TCP sockets stay in their states
  (src/net/netwatcher/bpf/tcp.bpf.h: `__handle_set_state`; bpf/common.bpf.h: `tcp_state`).

  `tcp_state` keeps the time of the last change of state by the address of the socket. A
  change to TCP_CLOSE deletes it, whether its message fits the ring buffer or not, so the
  next owner of the address starts anew.

  A life of a socket is what happens at its address up to a change to TCP_CLOSE, which ends
  it. The history has all changes, the latest first. `run_exact`: every message has the time
  since the previous change of its life (`Sent.Exact`), and `tcp_state` has the sockets
  whose last change was not to TCP_CLOSE, with its time (`Mirrors`).
-/

import Ksight.Lib.BoundedMap
import Ksight.Lib.Run
import Ksight.Netwatcher.Conns

namespace Ksight.Netwatcher.StateTimes

open Ksight.Lib
open Conns (ipprotoTcp tcpClose)

/-- The fields read of `trace_event_raw_inet_sock_set_state`. -/
structure SetState where
  skaddr : UInt64
  oldstate : Int
  newstate : Int
  sport : UInt16
  dport : UInt16
  protocol : UInt16

/-- The addresses read of the socket, by its own. -/
structure SockAddr where
  rcvSaddr : UInt32
  daddr : UInt32

structure TcpState where
  saddr : UInt32
  daddr : UInt32
  sport : UInt16
  dport : UInt16
  oldstate : Int
  newstate : Int
  time : UInt64
  deriving DecidableEq

def maxStates : Nat := 256 * 1024

abbrev TcpStates := BoundedMap UInt64 UInt64 maxStates

/-- `reserved` tells whether the ring buffer has room for the message. -/
def handleSetState (ctx : SetState) (sk : SockAddr) (newTime : UInt64) (reserved : Bool) (tcpState : TcpStates) :
    Option TcpState × TcpStates :=
  if ctx.protocol ≠ ipprotoTcp then (none, tcpState)
  else
    let time := match tcpState.lookup ctx.skaddr with
      | none => 0
      | some beforeTime => (newTime - beforeTime) / 1000
    let tcpState' :=
      if ctx.newstate = tcpClose then tcpState.delete ctx.skaddr
      else (tcpState.update ctx.skaddr newTime).getD tcpState
    (if reserved then
      some {
        saddr := sk.rcvSaddr
        daddr := sk.daddr
        sport := ctx.sport
        dport := ctx.dport
        oldstate := ctx.oldstate
        newstate := ctx.newstate
        time := time }
    else none, tcpState')

/-! ## Runs -/

/-- A change of state of a TCP socket. -/
structure Change where
  life : Nat
  sk : UInt64
  newstate : Int
  time : UInt64
  deriving DecidableEq

def Change.live (c : Change) : Bool := c.newstate ≠ tcpClose

/-- A message, with the time of its change and the previous one of the same life. -/
structure Sent where
  now : UInt64
  previous : Option Change
  message : TcpState

structure St where
  tcpState : TcpStates
  history : List Change
  sent : List Sent

def init : St := ⟨.empty, [], []⟩

structure Ev where
  life : Nat
  ctx : SetState
  sk : SockAddr
  ktime : UInt64
  reserved : Bool

def lastAt (history : List Change) (sk : UInt64) : Option Change := history.find? (·.sk == sk)

def lastOf (history : List Change) (life : Nat) : Option Change := history.find? (·.life == life)

/-- The last change at an address, where the life goes on. -/
def lastLive (history : List Change) (sk : UInt64) : Option Change := (lastAt history sk).filter Change.live

def step (e : Ev) (st : St) : Option St :=
  let r := handleSetState e.ctx e.sk e.ktime e.reserved st.tcpState
  some {
    tcpState := r.2
    history :=
      if e.ctx.protocol = ipprotoTcp then ⟨e.life, e.ctx.skaddr, e.ctx.newstate, e.ktime⟩ :: st.history
      else st.history
    sent := st.sent ++ (r.1.map fun message => ⟨e.ktime, lastOf st.history e.life, message⟩).toList }

/-- What comes after the last change of a life that goes on, or else the first of a new one. -/
def Follows (e : Ev) (history : List Change) : Option Change → Prop
  | some c => c.life = e.life ∧ c.time ≤ e.ktime
  | none => lastOf history e.life = none

instance (e : Ev) (history : List Change) : ∀ c, Decidable (Follows e history c)
  | some _ => inferInstanceAs (Decidable (_ ∧ _))
  | none => inferInstanceAs (Decidable (_ = _))

/-- An address goes to a new life when the last one there has ended, the changes of a life
    come in the order of time, and the map has room. -/
def Orderly (e : Ev) (st : St) : Prop :=
  e.ctx.protocol = ipprotoTcp → st.tcpState.HasRoom e.ctx.skaddr ∧
    Follows e st.history (lastLive st.history e.ctx.skaddr)

instance (e : Ev) (st : St) : Decidable (Orderly e st) := inferInstanceAs (Decidable (_ = _ → _ ∧ Follows ..))

/-! ## The law -/

/-- The time since the previous change of the life, in microseconds; 0 for the first one. -/
def Sent.Exact (s : Sent) : Prop :=
  match s.previous with
  | none => s.message.time = 0
  | some c => c.time ≤ s.now ∧ s.message.time.toNat = (s.now.toNat - c.time.toNat) / 1000

/-- The map has the sockets whose last change was not to TCP_CLOSE, with its time. -/
def Mirrors (st : St) : Prop :=
  ∀ sk t, st.tcpState.lookup sk = some t ↔
    ∃ c, lastAt st.history sk = some c ∧ c.newstate ≠ tcpClose ∧ c.time = t

theorem lastLive_eq_some {history : List Change} {sk : UInt64} {c : Change} :
    lastLive history sk = some c ↔ lastAt history sk = some c ∧ c.newstate ≠ tcpClose := by
  simp [lastLive, Option.filter_eq_some_iff, Change.live]

theorem lastLive_cons (c : Change) (history : List Change) (sk : UInt64) :
    lastLive (c :: history) sk =
      if sk = c.sk then if c.newstate = tcpClose then none else some c else lastLive history sk := by
  by_cases hsk : c.sk = sk
  · by_cases hs : c.newstate = tcpClose <;>
      simp [lastLive, lastAt, Change.live, Option.filter_some, hsk, hs]
  · have hne : (c.sk == sk) = false := beq_false_of_ne hsk
    simp [lastLive, lastAt, hne, Ne.symm hsk]

theorem lastOf_cons (c : Change) (history : List Change) (life : Nat) :
    lastOf (c :: history) life = if c.life = life then some c else lastOf history life := by
  by_cases h : c.life = life <;> simp [lastOf, h]

theorem sk_of_lastLive {history : List Change} {sk : UInt64} {c : Change} (h : lastLive history sk = some c) :
    c.sk = sk := by
  simpa using List.find?_some (lastLive_eq_some.mp h).1

/-! ## Every step -/

/-- What the probe leaves in the map. -/
theorem handleSetState_lookup {ctx : SetState} {sk : SockAddr} {newTime : UInt64} {reserved : Bool}
    {m : TcpStates} (htcp : ctx.protocol = ipprotoTcp) (hroom : m.HasRoom ctx.skaddr) (j : UInt64) :
    (handleSetState ctx sk newTime reserved m).2.lookup j =
      if j = ctx.skaddr then if ctx.newstate = tcpClose then none else some newTime else m.lookup j := by
  have hl := BoundedMap.lookup_getD_update_room hroom newTime
  by_cases hs : ctx.newstate = tcpClose
  · simp [handleSetState, htcp, hs, BoundedMap.lookup_delete]
  · simp [handleSetState, htcp, hs, hl]

/-- What it sends. -/
theorem handleSetState_time {ctx : SetState} {sk : SockAddr} {newTime : UInt64} {reserved : Bool} {m : TcpStates}
    {message : TcpState} (h : (handleSetState ctx sk newTime reserved m).1 = some message) :
    ctx.protocol = ipprotoTcp ∧
      message.time = ((m.lookup ctx.skaddr).map fun t => (newTime - t) / 1000).getD 0 := by
  unfold handleSetState at h
  by_cases htcp : ctx.protocol = ipprotoTcp
  · simp only [htcp, ne_eq, not_true_eq_false, if_false, Option.ite_none_right_eq_some, Option.some.injEq] at h
    refine ⟨htcp, ?_⟩
    rw [← h.2]
    cases m.lookup ctx.skaddr <;> rfl
  · simp only [ne_eq, htcp, not_false_eq_true, if_true] at h
    cases h

structure Inv (st : St) : Prop where
  noted : ∀ sk, st.tcpState.lookup sk = (lastLive st.history sk).map Change.time
  /-- A life goes on at one address only, and no later change of it is elsewhere. -/
  onlyLife : ∀ sk c, lastLive st.history sk = some c → lastOf st.history c.life = some c
  exact : ∀ s ∈ st.sent, s.Exact

theorem init_inv : Inv init where
  noted _ := rfl
  onlyLife _ _ h := by cases h
  exact _ h := by cases h

/-- What the map has for the address belongs to the life the change is of. -/
theorem lookup_eq_lastOf {e : Ev} {st : St} (hi : Inv st) (htcp : e.ctx.protocol = ipprotoTcp)
    (ho : Orderly e st) :
    st.tcpState.lookup e.ctx.skaddr = (lastOf st.history e.life).map Change.time ∧
      ∀ c ∈ lastOf st.history e.life, c.time ≤ e.ktime := by
  have hf := (ho htcp).2
  rw [hi.noted]
  cases hl : lastLive st.history e.ctx.skaddr with
  | some c =>
    rw [hl] at hf
    have hc : lastOf st.history e.life = some c := hf.1 ▸ hi.onlyLife _ c hl
    rw [hc]
    refine ⟨rfl, fun c' hc' => ?_⟩
    cases hc'
    exact hf.2
  | none =>
    rw [hl] at hf
    rw [show lastOf st.history e.life = none from hf]
    exact ⟨rfl, fun c' hc' => by cases hc'⟩

theorem toNat_micros {t t' : UInt64} (h : t ≤ t') : ((t' - t) / 1000).toNat = (t'.toNat - t.toNat) / 1000 := by
  rw [UInt64.toNat_div, UInt64.toNat_sub_of_le _ _ h]
  rfl

/-- A message has the time since the previous change of its life. -/
theorem sent_exact {e : Ev} {st : St} (hi : Inv st) (ho : Orderly e st) {message : TcpState}
    (h : (handleSetState e.ctx e.sk e.ktime e.reserved st.tcpState).1 = some message) :
    Sent.Exact ⟨e.ktime, lastOf st.history e.life, message⟩ := by
  obtain ⟨htcp, htime⟩ := handleSetState_time h
  obtain ⟨hl, hle⟩ := lookup_eq_lastOf hi htcp ho
  rw [hl] at htime
  unfold Sent.Exact
  cases hp : lastOf st.history e.life with
  | none =>
    rw [hp] at htime
    exact htime
  | some c =>
    rw [hp] at htime
    have hc : c.time ≤ e.ktime := hle c hp
    refine ⟨hc, ?_⟩
    rw [htime]
    exact toNat_micros hc

/-- The change is the last one of its life, and no life that goes on elsewhere is the same. -/
theorem onlyLife_cons {e : Ev} {st : St} (hi : Inv st)
    (hf : Follows e st.history (lastLive st.history e.ctx.skaddr)) {newstate : Int} {sk : UInt64} {c : Change}
    (hc : lastLive (⟨e.life, e.ctx.skaddr, newstate, e.ktime⟩ :: st.history) sk = some c) :
    lastOf (⟨e.life, e.ctx.skaddr, newstate, e.ktime⟩ :: st.history) c.life = some c := by
  rw [lastLive_cons] at hc
  dsimp only at hc
  by_cases hsk : sk = e.ctx.skaddr
  · rw [if_pos hsk] at hc
    simp only [Option.ite_none_left_eq_some, Option.some.injEq] at hc
    rw [← hc.2]
    exact (lastOf_cons ..).trans (if_pos rfl)
  · rw [if_neg hsk] at hc
    have hc' : lastOf st.history c.life = some c := hi.onlyLife sk c hc
    have hlife : e.life ≠ c.life := by
      intro hl
      cases hlive : lastLive st.history e.ctx.skaddr with
      | some d =>
        rw [hlive] at hf
        have hd : lastOf st.history d.life = some d := hi.onlyLife _ d hlive
        rw [hf.1, hl, hc'] at hd
        cases hd
        exact hsk ((sk_of_lastLive hc).symm.trans (sk_of_lastLive hlive))
      | none =>
        rw [hlive] at hf
        have hn : lastOf st.history e.life = none := hf
        rw [hl, hc'] at hn
        cases hn
    rw [lastOf_cons, if_neg hlife]
    exact hc'

theorem step_inv {e : Ev} {st st' : St} (hi : Inv st) (ho : Orderly e st) (h : step e st = some st') :
    Inv st' := by
  obtain rfl := Option.some.inj h
  have hsent : ∀ s ∈ st.sent ++ ((handleSetState e.ctx e.sk e.ktime e.reserved st.tcpState).1.map
      fun message => ⟨e.ktime, lastOf st.history e.life, message⟩).toList, s.Exact := by
    intro s hs
    rcases List.mem_append.mp hs with hs | hs
    · exact hi.exact s hs
    · obtain ⟨message, hm, rfl⟩ := Option.map_eq_some_iff.mp (Option.mem_toList.mp hs)
      exact sent_exact hi ho hm
  by_cases htcp : e.ctx.protocol = ipprotoTcp
  · obtain ⟨hroom, hf⟩ := ho htcp
    simp only [htcp, if_true]
    refine ⟨fun sk => ?_, fun sk c hc => onlyLife_cons hi hf hc, hsent⟩
    dsimp only
    rw [handleSetState_lookup htcp hroom, lastLive_cons, hi.noted sk]
    dsimp only
    split
    · split <;> rfl
    · rfl
  · have hm : (handleSetState e.ctx e.sk e.ktime e.reserved st.tcpState).2 = st.tcpState := by
      simp [handleSetState, htcp]
    simp only [htcp, if_false, hm]
    exact ⟨hi.noted, hi.onlyLife, hsent⟩

/-- Every message has the time since the previous change of its life, 0 if it is the first,
    and the map has the sockets whose last change was not to TCP_CLOSE. -/
theorem run_exact {st : St} (h : Run step Orderly init st) : (∀ s ∈ st.sent, s.Exact) ∧ Mirrors st := by
  have hi : Inv st := h.inv init_inv fun _ _ _ hi ho hs => step_inv hi ho hs
  refine ⟨hi.exact, fun sk t => ?_⟩
  rw [hi.noted, Option.map_eq_some_iff]
  constructor
  · rintro ⟨c, hc, ht⟩
    obtain ⟨hl, hn⟩ := lastLive_eq_some.mp hc
    exact ⟨c, hl, hn, ht⟩
  · rintro ⟨c, hl, hn, ht⟩
    exact ⟨c, lastLive_eq_some.mpr ⟨hl, hn⟩, ht⟩

/-! ## A few changes -/

def change (life : Nat) (sk : UInt64) (oldstate newstate : Int) (ktime : UInt64) (reserved : Bool) : Ev :=
  ⟨life, ⟨sk, oldstate, newstate, 80, 4000, ipprotoTcp⟩, ⟨0, 0⟩, ktime, reserved⟩

/-- Two sockets and a third one that gets the first one's address; the message of the first
    one's close is lost. -/
theorem reused_address_is_exact :
    ∃ st, st.sent.map (fun s => s.message.time) = [0, 0, 3, 4, 0, 2] ∧
      (∀ s ∈ st.sent, s.Exact) ∧ Mirrors st := by
  obtain ⟨st, hr, hs⟩ := run_of_execIf_any step Orderly init
    [change 1 8 7 2 1000 true, change 2 16 7 10 2500 true, change 1 8 2 1 4000 true,
      change 2 16 10 1 7400 true, change 1 8 1 7 9000 false, change 3 8 7 2 9500 true, change 3 8 2 1 11999 true]
    (fun st => decide (st.sent.map (fun s => s.message.time) = [0, 0, 3, 4, 0, 2])) (by decide +kernel)
  exact ⟨st, of_decide_eq_true hs, run_exact hr⟩

end Ksight.Netwatcher.StateTimes

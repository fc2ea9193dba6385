/-
  Ksight.Netwatcher.Conns — the table of connections
  (src/net/netwatcher/bpf/tcp.bpf.h: `__inet_csk_accept`, `__tcp_v4_connect`,
  `__tcp_v4_connect_exit`, the same for v6, `__tcp_set_state`, `skb_checksum_complete`;
  bpf/common.bpf.h: `conns_info`, `sock_stores`, `CONN_INIT`).

  `conns_info` has an entry for each connection opened or accepted and not closed.
  `sock_stores` has the socket each thread connected last, for the probes that are not
  given one. An accepted connection is never in `sock_stores`.

  Two laws, each with the condition under which a step keeps it:
  - `Attributed`: a checksum error is reported with the socket of the packet's connection,
    if that is tracked. `attributed_iff`: if and only if, at every error, what has happened before
    makes the packet's connection the one that the current thread has connected last, if that is
    open, and no open one if not (`OwnErrors`). The current thread is any thread: another connection
    is reported (`reported_for_another`), and never one that no thread has called connect with,
    as an accepted one (`not_own_of_never_called`, `accepted_is_not_reported`).
  - `Forgets`: a close forgets its connection only. `forgets_iff`: if and only if at every
    close the socket stored for the thread that opened the connection is the closed one
    (`StoredIsClosed`). A thread with two connections loses the second one's entry in
    `sock_stores` when the first is closed (`close_forgets_another`).
-/

import Mathlib.Logic.Function.Basic
import Ksight.Lib.BoundedMap
import Ksight.Lib.Run
import Ksight.Netwatcher.ValidateIncoming

namespace Ksight.Netwatcher.Conns

open Ksight.Lib
open Validate (afInet afInet6)

def maxConn : Nat := 1000

def ipprotoTcp : UInt16 := 6

def tcpClose : Int := 7

/-- What is read of a `struct sock`. -/
structure Sock where
  protocol : UInt16
  family : UInt16
  dport : UInt16
  num : UInt16
  rcvSaddr : UInt32
  daddr : UInt32
  v6RcvSaddr : BitVec 128
  v6Daddr : BitVec 128

/-- The task a probe runs in, and the time. -/
structure Task where
  ptid : UInt64
  comm : List UInt8
  ktime : UInt64

/-- The fields of a `struct conn_t` that are written here. -/
structure Conn where
  sock : UInt64
  pid : Int32
  ptid : UInt64
  comm : List UInt8
  family : UInt16
  saddrV6 : BitVec 128
  daddrV6 : BitVec 128
  saddr : UInt32
  daddr : UInt32
  sport : UInt16
  dport : UInt16
  isServer : Int
  initTimestamp : UInt64

/-- The fields of a `struct pack_t` that are written. -/
structure ChecksumPacket where
  err : Int
  sock : UInt64
  deriving DecidableEq

/-- The command line: `-e`, `-a`, `-s` and `-d`. -/
structure Options where
  errPacket : Bool
  allConn : Bool
  filterSport : UInt16
  filterDport : UInt16

structure Maps where
  connsInfo : BoundedMap UInt64 Conn maxConn
  sockStores : BoundedMap UInt64 UInt64 maxConn

/-- `CONN_INIT`, `FILTER_DPORT`, `FILTER_SPORT` and `CONN_ADD_ADDRESS`: the entry of a
    socket, `none` where the probe returns before it has one. -/
def connOf (o : Options) (task : Task) (sk : UInt64) (s : Sock) (isServer : Int) : Option Conn :=
  if s.protocol ≠ ipprotoTcp then none
  else
    let conn : Conn := {
      sock := sk
      pid := (task.ptid >>> 32).toUInt32.toInt32
      ptid := task.ptid
      comm := task.comm
      family := s.family
      saddrV6 := 0
      daddrV6 := 0
      saddr := 0
      daddr := 0
      sport := s.num
      dport := bswap16 s.dport
      isServer := isServer
      initTimestamp := task.ktime / 1000 }
    if o.filterDport ≠ 0 ∧ conn.dport ≠ o.filterDport then none
    else if o.filterSport ≠ 0 ∧ conn.sport ≠ o.filterSport then none
    else if s.family = afInet then some { conn with saddr := s.rcvSaddr, daddr := s.daddr }
    else if s.family = afInet6 then some { conn with saddrV6 := s.v6RcvSaddr, daddrV6 := s.v6Daddr }
    else some conn

/-- `newsk` is what `inet_csk_accept` returns, `none` for NULL. -/
def inetCskAccept (o : Options) (victim : UInt64) (task : Task) (newsk : Option UInt64) (mem : UInt64 → Sock)
    (m : Maps) : Maps :=
  match newsk with
  | none => m
  | some sk =>
    match connOf o task sk (mem sk) 1 with
    | none => m
    | some conn => { m with connsInfo := m.connsInfo.updateLru victim sk conn }

def tcpV4Connect (victim ptid sk : UInt64) (m : Maps) : Maps :=
  { m with sockStores := m.sockStores.updateLru victim ptid sk }

def tcpV4ConnectExit (o : Options) (victim : UInt64) (task : Task) (ret : Int) (mem : UInt64 → Sock)
    (m : Maps) : Maps :=
  match m.sockStores.lookup task.ptid with
  | none => m
  | some sk =>
    if ret ≠ 0 then { m with sockStores := m.sockStores.delete task.ptid }
    else
      match connOf o task sk (mem sk) 0 with
      | none => m
      | some conn => { m with connsInfo := m.connsInfo.updateLru victim sk conn }

/-- The code of `__tcp_v6_connect` and `__tcp_v6_connect_exit` is that of the v4 ones. -/
def tcpV6Connect (victim ptid sk : UInt64) (m : Maps) : Maps := tcpV4Connect victim ptid sk m

def tcpV6ConnectExit (o : Options) (victim : UInt64) (task : Task) (ret : Int) (mem : UInt64 → Sock)
    (m : Maps) : Maps :=
  tcpV4ConnectExit o victim task ret mem m

def tcpSetState (o : Options) (sk : UInt64) (state : Int) (m : Maps) : Maps :=
  if o.allConn then m
  else
    match m.connsInfo.lookup sk with
    | none => m
    | some value =>
      if state = tcpClose then
        { connsInfo := m.connsInfo.delete sk
          sockStores := m.sockStores.delete value.ptid }
      else m

/-- `reserved` tells whether the ring buffer has room for the packet. -/
def skbChecksumComplete (o : Options) (ptid : UInt64) (ret : Int) (reserved : Bool) (m : Maps) :
    Option ChecksumPacket :=
  if !o.errPacket then none
  else
    match m.sockStores.lookup ptid with
    | none => none
    | some sk =>
      if ret = 0 then none
      else
        match m.connsInfo.lookup sk with
        | none => none
        | some _ => if reserved then some ⟨2, sk⟩ else none

/-! ## Runs -/

def Maps.Tracked (m : Maps) (sk : UInt64) : Prop := sk ∈ m.connsInfo.keys

instance (m : Maps) (sk : UInt64) : Decidable (m.Tracked sk) := inferInstanceAs (Decidable (_ ∈ _))

/-- A run of `skb_checksum_complete`, with the connection the packet belongs to, if any. -/
structure Check where
  ret : Int
  owner : Option UInt64
  before : Maps
  packet : Option ChecksumPacket

/-- The close of a tracked socket. -/
structure Close where
  sk : UInt64
  before : Maps
  after : Maps

structure St where
  maps : Maps
  /-- The threads inside `tcp_v4_connect` or `tcp_v6_connect`. -/
  connecting : UInt64 → Bool
  /-- The socket each thread called it with last. -/
  lastConnect : UInt64 → Option UInt64
  checks : List Check
  closes : List Close

def init : St := ⟨⟨.empty, .empty⟩, fun _ => false, fun _ => none, [], []⟩

inductive Ev where
  | accept (task : Task) (newsk : Option UInt64) (mem : UInt64 → Sock) (victim : UInt64)
  | v4Connect (ptid sk victim : UInt64)
  | v4ConnectExit (task : Task) (ret : Int) (mem : UInt64 → Sock) (victim : UInt64)
  | v6Connect (ptid sk victim : UInt64)
  | v6ConnectExit (task : Task) (ret : Int) (mem : UInt64 → Sock) (victim : UInt64)
  | setState (sk : UInt64) (state : Int)
  | checksum (ptid : UInt64) (ret : Int) (owner : Option UInt64)

/-- A thread calls connect with `sk`; the map has room. -/
def enter (ptid sk : UInt64) (m : Maps) (st : St) : Option St :=
  if ¬ st.connecting ptid ∧ st.maps.sockStores.HasRoom ptid then
    some { st with
      maps := m
      connecting := Function.update st.connecting ptid true
      lastConnect := Function.update st.lastConnect ptid (some sk) }
  else none

/-- It returns. -/
def leave (ptid : UInt64) (m : Maps) (st : St) : Option St :=
  if st.connecting ptid ∧ (st.maps.sockStores.lookup ptid).all (st.maps.connsInfo.HasRoom ·) then
    some { st with maps := m, connecting := Function.update st.connecting ptid false }
  else none

variable (o : Options)

/-- The probes run in any thread, those of connect and accept in the one that calls it. -/
def step : Ev → St → Option St
  | .accept task newsk mem victim, st =>
    if ¬ st.connecting task.ptid ∧ newsk.all (st.maps.connsInfo.HasRoom ·) then
      some { st with maps := inetCskAccept o victim task newsk mem st.maps }
    else none
  | .v4Connect ptid sk victim, st => enter ptid sk (tcpV4Connect victim ptid sk st.maps) st
  | .v4ConnectExit task ret mem victim, st =>
    leave task.ptid (tcpV4ConnectExit o victim task ret mem st.maps) st
  | .v6Connect ptid sk victim, st => enter ptid sk (tcpV6Connect victim ptid sk st.maps) st
  | .v6ConnectExit task ret mem victim, st =>
    leave task.ptid (tcpV6ConnectExit o victim task ret mem st.maps) st
  | .setState sk state, st =>
    let m := tcpSetState o sk state st.maps
    some { st with
      maps := m
      closes := if state = tcpClose ∧ st.maps.Tracked sk then st.closes ++ [⟨sk, st.maps, m⟩] else st.closes }
  | .checksum ptid ret owner, st =>
    some { st with
      checks := st.checks ++ [⟨ret, owner, st.maps, skbChecksumComplete o ptid ret true st.maps⟩] }

/-! ## The laws -/

/-- An error is reported for the packet's connection, and is reported if that is tracked. -/
def Check.Attributed (c : Check) : Prop :=
  (∀ packet ∈ c.packet, packet.err = 2 → c.owner = some packet.sock) ∧
    (c.ret ≠ 0 → ∀ sk ∈ c.owner, c.before.Tracked sk → ∃ packet, c.packet = some packet ∧ packet.err = 2)

def Attributed (st : St) : Prop := ∀ c ∈ st.checks, c.Attributed

/-- Of the entries, only those that have to do with the closed socket go. -/
structure Close.Forgets (c : Close) : Prop where
  closed : c.after.connsInfo.lookup c.sk = none
  others : ∀ s, s ≠ c.sk → c.after.connsInfo.lookup s = c.before.connsInfo.lookup s
  stored : ∀ ptid s, c.before.sockStores.lookup ptid = some s → c.after.sockStores.lookup ptid = none → s = c.sk

def Forgets (st : St) : Prop := ∀ c ∈ st.closes, c.Forgets

/-- The socket the thread connected last, if it is tracked. -/
def Maps.stored (m : Maps) (ptid : UInt64) : Option UInt64 := (m.sockStores.lookup ptid).filter m.Tracked

/-! The condition for the first law is about what has happened before, the newest event first. -/

mutual

/-- The socket that the thread has called connect with last, unless the call has failed or a
    connection that the thread opened has been closed since. -/
def lastCalled (ptid : UInt64) : List Ev → Option UInt64
  | [] => none
  | .v4Connect p sk _ :: past | .v6Connect p sk _ :: past => if p = ptid then some sk else lastCalled ptid past
  | .v4ConnectExit task ret _ _ :: past | .v6ConnectExit task ret _ _ :: past =>
    if task.ptid = ptid ∧ ret ≠ 0 then none else lastCalled ptid past
  | .setState sk state :: past =>
    if state = tcpClose ∧ openedBy sk past = some ptid then none else lastCalled ptid past
  | .accept .. :: past | .checksum .. :: past => lastCalled ptid past

/-- The thread that has opened the connection, if it is open: a connect that succeeded or an accept,
    not closed since. The filters leave out the others. -/
def openedBy (sk : UInt64) : List Ev → Option UInt64
  | [] => none
  | .v4ConnectExit task ret mem _ :: past | .v6ConnectExit task ret mem _ :: past =>
    if ret = 0 ∧ lastCalled task.ptid past = some sk ∧ (connOf o task sk (mem sk) 0).isSome then some task.ptid
    else openedBy sk past
  | .accept task newsk mem _ :: past =>
    if newsk = some sk ∧ (connOf o task sk (mem sk) 1).isSome then some task.ptid else openedBy sk past
  | .setState s state :: past => if s = sk ∧ state = tcpClose then none else openedBy sk past
  | .v4Connect .. :: past | .v6Connect .. :: past | .checksum .. :: past => openedBy sk past

end

/-- The connection that the thread has connected last, if that is open. -/
def lastOpened (ptid : UInt64) (past : List Ev) : Option UInt64 :=
  (lastCalled o ptid past).filter fun sk => (openedBy o sk past).isSome

/-- The corrupted packet is of that connection of the current thread, and of no open connection if
    there is none. -/
def OwnError (past : List Ev) : Ev → Prop
  | .checksum ptid ret owner => ret ≠ 0 →
    (∀ sk ∈ lastOpened o ptid past, owner = some sk) ∧
      (lastOpened o ptid past = none → ∀ sk ∈ owner, openedBy o sk past = none)
  | _ => True

/-- The condition on the events that follow the past ones. -/
def OwnErrors : List Ev → List Ev → Prop
  | _, [] => True
  | past, e :: es => OwnError o past e ∧ OwnErrors (e :: past) es

/-- The condition for the second law: what is stored for the thread that opened the
    connection is the closed socket, or nothing. -/
def StoredIsClosed : Ev → St → Prop
  | .setState sk state, st => state = tcpClose →
    ∀ conn ∈ st.maps.connsInfo.lookup sk, ∀ s ∈ st.maps.sockStores.lookup conn.ptid, s = sk
  | _, _ => True

instance (past : List Ev) : ∀ e, Decidable (OwnError o past e)
  | .checksum ptid _ owner =>
    -- not by a search through all addresses
    have : Decidable (∀ sk ∈ lastOpened o ptid past, owner = some sk) := Option.decidableForallMem _
    have : Decidable (∀ sk ∈ owner, openedBy o sk past = none) := Option.decidableForallMem _
    inferInstanceAs (Decidable (_ ≠ _ → _ ∧ (_ → _)))
  | .accept .. | .v4Connect .. | .v4ConnectExit .. | .v6Connect .. | .v6ConnectExit .. | .setState .. =>
    .isTrue trivial

instance decidableOwnErrors : ∀ past es, Decidable (OwnErrors o past es)
  | _, [] => .isTrue trivial
  | past, e :: es =>
    have := decidableOwnErrors (e :: past) es
    inferInstanceAs (Decidable (OwnError o past e ∧ OwnErrors o (e :: past) es))

instance : ∀ (e : Ev) (st : St), Decidable (StoredIsClosed e st)
  | .setState sk _, st =>
    -- not by a search through all addresses
    have (ptid : UInt64) : Decidable (∀ s ∈ st.maps.sockStores.lookup ptid, s = sk) :=
      Option.decidableForallMem _
    inferInstanceAs (Decidable (_ = _ → ∀ _ ∈ _, ∀ _ ∈ _, _ = _))
  | .accept .., _ => inferInstanceAs (Decidable True)
  | .v4Connect .., _ => inferInstanceAs (Decidable True)
  | .v4ConnectExit .., _ => inferInstanceAs (Decidable True)
  | .v6Connect .., _ => inferInstanceAs (Decidable True)
  | .v6ConnectExit .., _ => inferInstanceAs (Decidable True)
  | .checksum .., _ => inferInstanceAs (Decidable True)

/-! ## What the probes do -/

theorem tracked_iff {m : Maps} {sk : UInt64} : m.Tracked sk ↔ ∃ conn, m.connsInfo.lookup sk = some conn :=
  BoundedMap.mem_keys

theorem not_tracked_iff {m : Maps} {sk : UInt64} : ¬ m.Tracked sk ↔ m.connsInfo.lookup sk = none := by
  rw [tracked_iff, Option.eq_none_iff_forall_not_mem, not_exists]
  rfl

/-- The report names what is stored for the current thread. -/
theorem skbChecksumComplete_eq (allConn : Bool) (sport dport : UInt16) (ptid : UInt64) (ret : Int) (m : Maps) :
    skbChecksumComplete ⟨true, allConn, sport, dport⟩ ptid ret true m =
      if ret = 0 then none else (m.stored ptid).map (⟨2, ·⟩) := by
  unfold skbChecksumComplete Maps.stored
  cases hs : m.sockStores.lookup ptid with
  | none => simp
  | some sk =>
    cases hc : m.connsInfo.lookup sk with
    | none =>
      have hn : ¬ m.Tracked sk := not_tracked_iff.mpr hc
      simp [hc, Option.filter_some, hn]
    | some conn =>
      have ht : m.Tracked sk := tracked_iff.mpr ⟨conn, hc⟩
      simp [hc, Option.filter_some, ht]

/-- An accept stores no socket for a thread. -/
theorem inetCskAccept_stored (victim : UInt64) (task : Task) (newsk : Option UInt64)
    (mem : UInt64 → Sock) (m : Maps) : (inetCskAccept o victim task newsk mem m).sockStores = m.sockStores := by
  unfold inetCskAccept
  split
  · rfl
  · split <;> rfl

/-- A close of a tracked socket deletes two entries. -/
theorem tcpSetState_close {o : Options} (ha : o.allConn = false) {sk : UInt64} {m : Maps} {conn : Conn}
    (h : m.connsInfo.lookup sk = some conn) :
    tcpSetState o sk tcpClose m = ⟨m.connsInfo.delete sk, m.sockStores.delete conn.ptid⟩ := by
  simp [tcpSetState, ha, h]

/-- Any other change of state, and one of a socket that is not tracked, leaves the maps. -/
theorem tcpSetState_frame {sk : UInt64} {state : Int} {m : Maps} (h : ¬ (state = tcpClose ∧ m.Tracked sk)) :
    tcpSetState o sk state m = m := by
  unfold tcpSetState
  split
  · rfl
  · cases hc : m.connsInfo.lookup sk with
    | none => rfl
    | some value =>
      have ht : m.Tracked sk := tracked_iff.mpr ⟨value, hc⟩
      exact if_neg fun hs => h ⟨hs, ht⟩

/-- A close forgets its connection only if and only if what it deletes from `sock_stores`
    is the closed socket's. -/
theorem close_forgets_iff {e : Bool} {sport dport : UInt16} {sk : UInt64} {m : Maps} {conn : Conn}
    (h : m.connsInfo.lookup sk = some conn) :
    (Close.mk sk m (tcpSetState ⟨e, false, sport, dport⟩ sk tcpClose m)).Forgets ↔
      ∀ s ∈ m.sockStores.lookup conn.ptid, s = sk := by
  rw [tcpSetState_close rfl h]
  constructor
  · intro hf s hs
    exact hf.stored conn.ptid s hs (m.sockStores.lookup_delete_self _)
  · intro hs
    refine ⟨m.connsInfo.lookup_delete_self _, fun s hne => m.connsInfo.lookup_delete_ne hne, ?_⟩
    intro ptid s hb ha
    by_cases e : ptid = conn.ptid
    · subst e
      exact hs s hb
    · have hb' : (m.sockStores.delete conn.ptid).lookup ptid = some s :=
        (m.sockStores.lookup_delete_ne e).trans hb
      rw [ha] at hb'
      cases hb'

/-- A run of the checksum probe is attributed if and only if it finds the packet's connection. -/
theorem check_attributed_iff (sport dport : UInt16) (ptid : UInt64) (ret : Int)
    (owner : Option UInt64) (m : Maps) :
    (Check.mk ret owner m (skbChecksumComplete ⟨true, false, sport, dport⟩ ptid ret true m)).Attributed ↔
      (ret ≠ 0 → m.stored ptid = owner.filter m.Tracked) := by
  rw [skbChecksumComplete_eq]
  unfold Check.Attributed
  dsimp only
  by_cases hret : ret = 0
  · simp [hret]
  · simp only [hret, if_false, ne_eq, not_false_eq_true, forall_const]
    constructor
    · rintro ⟨hown, hrep⟩
      cases hs : m.stored ptid with
      | some sk =>
        have howner : owner = some sk := hown ⟨2, sk⟩ (by rw [hs]; rfl) rfl
        have ht : m.Tracked sk := of_decide_eq_true (Option.filter_eq_some_iff.mp hs).2
        simp [howner, Option.filter_some, ht]
      | none =>
        -- no report: the packet's connection is not tracked
        symm
        refine Option.filter_eq_none_iff.mpr fun sk hsk => ?_
        intro ht
        obtain ⟨packet, hp, -⟩ := hrep sk hsk (of_decide_eq_true ht)
        rw [hs] at hp
        cases hp
    · intro heq
      constructor
      · intro packet hp _
        obtain ⟨sk, hsk, rfl⟩ := Option.map_eq_some_iff.mp hp
        rw [heq] at hsk
        exact (Option.filter_eq_some_iff.mp hsk).1
      · intro sk hsk ht
        have hst : m.stored ptid = some sk :=
          heq.trans (Option.filter_eq_some_iff.mpr ⟨hsk, decide_eq_true ht⟩)
        exact ⟨⟨2, sk⟩, by rw [hst]; rfl, rfl⟩

/-! ## What is reported -/

/-- What is stored for a thread is the socket it connected last. -/
def LastStored (st : St) : Prop :=
  ∀ ptid sk, st.maps.sockStores.lookup ptid = some sk → st.lastConnect ptid = some sk

variable {o}

theorem enter_inv {st st' : St} {ptid sk victim : UInt64} (hi : LastStored st)
    (h : enter ptid sk (tcpV4Connect victim ptid sk st.maps) st = some st') : LastStored st' := by
  simp only [enter, Option.ite_none_right_eq_some, Option.some.injEq] at h
  obtain ⟨⟨-, hroom⟩, rfl⟩ := h
  intro p s hs
  simp only [tcpV4Connect, BoundedMap.lookup_updateLru hroom] at hs
  by_cases e : p = ptid
  · subst e
    rw [if_pos rfl] at hs
    exact (Function.update_self ..).trans hs
  · rw [if_neg e] at hs
    exact (Function.update_of_ne e ..).trans (hi p s hs)

/-- The other probes make no entry in `sock_stores`. -/
def Shrinks (m m' : Maps) : Prop :=
  ∀ ptid sk, m'.sockStores.lookup ptid = some sk → m.sockStores.lookup ptid = some sk

theorem shrinks_delete (m : Maps) (conns : BoundedMap UInt64 Conn maxConn) (ptid : UInt64) :
    Shrinks m ⟨conns, m.sockStores.delete ptid⟩ := by
  intro p sk h
  simp only [BoundedMap.lookup_delete] at h
  split at h
  · cases h
  · exact h

theorem tcpV4ConnectExit_shrinks (victim : UInt64) (task : Task) (ret : Int) (mem : UInt64 → Sock) (m : Maps) :
    Shrinks m (tcpV4ConnectExit o victim task ret mem m) := by
  unfold tcpV4ConnectExit
  split
  · exact fun _ _ h => h
  · split
    · exact shrinks_delete m m.connsInfo task.ptid
    · split <;> exact fun _ _ h => h

theorem inetCskAccept_shrinks (victim : UInt64) (task : Task) (newsk : Option UInt64) (mem : UInt64 → Sock)
    (m : Maps) : Shrinks m (inetCskAccept o victim task newsk mem m) := by
  intro ptid sk h
  rwa [inetCskAccept_stored] at h

theorem tcpSetState_shrinks (sk : UInt64) (state : Int) (m : Maps) : Shrinks m (tcpSetState o sk state m) := by
  unfold tcpSetState
  split
  · exact fun _ _ h => h
  · split
    · exact fun _ _ h => h
    · rename_i value _
      split
      · exact shrinks_delete m _ value.ptid
      · exact fun _ _ h => h

theorem step_inv {e : Ev} {st st' : St} (hi : LastStored st) (h : step o e st = some st') : LastStored st' := by
  have hleave : ∀ {task ret mem victim},
      leave task.ptid (tcpV4ConnectExit o victim task ret mem st.maps) st = some st' → LastStored st' := by
    intro task ret mem victim h
    simp only [leave, Option.ite_none_right_eq_some, Option.some.injEq] at h
    rw [← h.2]
    exact fun p sk hs => hi p sk (tcpV4ConnectExit_shrinks victim task ret mem st.maps p sk hs)
  cases e with
  | accept task newsk mem victim =>
    simp only [step, Option.ite_none_right_eq_some, Option.some.injEq] at h
    rw [← h.2]
    exact fun p sk hs => hi p sk (inetCskAccept_shrinks victim task newsk mem st.maps p sk hs)
  | v4Connect ptid sk victim => exact enter_inv hi h
  | v4ConnectExit task ret mem victim => exact hleave h
  | v6Connect ptid sk victim => exact enter_inv hi h
  | v6ConnectExit task ret mem victim => exact hleave h
  | setState sk state =>
    cases h
    exact fun p s hs => hi p s (tcpSetState_shrinks sk state st.maps p s hs)
  | checksum ptid ret owner =>
    cases h
    exact hi

variable (o)

theorem run_lastStored {st : St} (h : Run (step o) anyEvent init st) : LastStored st :=
  h.inv (fun _ _ h => by simp [init] at h) fun _ _ _ hi _ hs => step_inv hi hs

/-- Whatever packet is corrupted, what is reported is the socket the current thread has
    connected last. -/
theorem report_names_last_connect {st : St} (h : Run (step o) anyEvent init st) {ptid : UInt64} {ret : Int}
    {reserved : Bool} {packet : ChecksumPacket}
    (hp : skbChecksumComplete o ptid ret reserved st.maps = some packet) :
    st.lastConnect ptid = some packet.sock := by
  unfold skbChecksumComplete at hp
  split at hp
  · cases hp
  · split at hp
    · cases hp
    · rename_i sk hs
      split at hp
      · cases hp
      · split at hp
        · cases hp
        · simp only [Option.ite_none_right_eq_some, Option.some.injEq] at hp
          rw [← hp.2]
          exact run_lastStored o h ptid sk hs

/-! ## When the laws hold -/

/-- What has happened and what the maps hold. -/
structure Mirrors (o : Options) (m : Maps) (past : List Ev) : Prop where
  stored : ∀ ptid, m.sockStores.lookup ptid = lastCalled o ptid past
  opened : ∀ sk, (m.connsInfo.lookup sk).map Conn.ptid = openedBy o sk past

variable {o}

theorem connOf_ptid {task : Task} {sk : UInt64} {s : Sock} {isServer : Int} {conn : Conn}
    (h : connOf o task sk s isServer = some conn) : conn.ptid = task.ptid := by
  unfold connOf at h
  split at h
  · cases h
  · dsimp only at h
    split at h
    · cases h
    · split at h
      · cases h
      · split at h
        · cases h
          rfl
        · split at h <;> cases h <;> rfl

/-- A new entry is the thread's. -/
theorem opened_update {m : Maps} {victim sk : UInt64} {task : Task} {s : Sock} {isServer : Int} {conn : Conn}
    (hroom : m.connsInfo.HasRoom sk) (h : connOf o task sk s isServer = some conn) (k : UInt64) :
    ((m.connsInfo.updateLru victim sk conn).lookup k).map Conn.ptid =
      if k = sk then some task.ptid else (m.connsInfo.lookup k).map Conn.ptid := by
  rw [BoundedMap.lookup_updateLru hroom]
  split
  · rw [Option.map_some, connOf_ptid h]
  · rfl

/-! Each probe keeps this, with its event in the past. -/

theorem Mirrors.accept {m : Maps} {past : List Ev} (h : Mirrors o m past) {task : Task} {newsk : Option UInt64}
    {mem : UInt64 → Sock} {victim : UInt64} (hroom : newsk.all (m.connsInfo.HasRoom ·) = true) :
    Mirrors o (inetCskAccept o victim task newsk mem m) (.accept task newsk mem victim :: past) := by
  refine ⟨fun ptid => ?_, fun k => ?_⟩
  · rw [inetCskAccept_stored, lastCalled, h.stored]
  · rw [openedBy, ← h.opened]
    cases newsk with
    | none => simp [inetCskAccept]
    | some sk =>
      rcases hconn : connOf o task sk (mem sk) 1 with _ | conn
      · rw [if_neg]
        · simp [inetCskAccept, hconn]
        · rintro ⟨hk, hsome⟩
          cases hk
          simp [hconn] at hsome
      · have hsk : m.connsInfo.HasRoom sk := by simpa using hroom
        simp only [inetCskAccept, hconn, opened_update hsk hconn]
        by_cases hk : k = sk
        · subst hk
          simp [hconn]
        · simp [hk, Ne.symm hk]

theorem Mirrors.connect {m : Maps} {past : List Ev} (h : Mirrors o m past) {ptid sk victim : UInt64}
    (hroom : m.sockStores.HasRoom ptid) :
    Mirrors o (tcpV4Connect victim ptid sk m) (.v4Connect ptid sk victim :: past) := by
  refine ⟨fun p => ?_, h.opened⟩
  simp only [tcpV4Connect, lastCalled, BoundedMap.lookup_updateLru hroom, h.stored, eq_comm]

/-- What the return of a connect does: nothing, an entry deleted, or one made. -/
theorem tcpV4ConnectExit_cases (o : Options) (victim : UInt64) (task : Task) (ret : Int) (mem : UInt64 → Sock)
    (m : Maps) :
    m.sockStores.lookup task.ptid = none ∧ tcpV4ConnectExit o victim task ret mem m = m ∨
      ∃ sk, m.sockStores.lookup task.ptid = some sk ∧
        (ret ≠ 0 ∧ tcpV4ConnectExit o victim task ret mem m = ⟨m.connsInfo, m.sockStores.delete task.ptid⟩ ∨
          ret = 0 ∧ connOf o task sk (mem sk) 0 = none ∧ tcpV4ConnectExit o victim task ret mem m = m ∨
          ret = 0 ∧ ∃ conn, connOf o task sk (mem sk) 0 = some conn ∧
            tcpV4ConnectExit o victim task ret mem m = ⟨m.connsInfo.updateLru victim sk conn, m.sockStores⟩) := by
  rcases hl : m.sockStores.lookup task.ptid with _ | sk
  · exact .inl ⟨rfl, by simp [tcpV4ConnectExit, hl]⟩
  · refine .inr ⟨sk, rfl, ?_⟩
    by_cases hret : ret = 0
    · rcases hconn : connOf o task sk (mem sk) 0 with _ | conn
      · exact .inr (.inl ⟨hret, rfl, by simp [tcpV4ConnectExit, hl, hret, hconn]⟩)
      · exact .inr (.inr ⟨hret, conn, rfl, by simp [tcpV4ConnectExit, hl, hret, hconn]⟩)
    · exact .inl ⟨hret, by simp [tcpV4ConnectExit, hl, hret]⟩

theorem Mirrors.connectExit {m : Maps} {past : List Ev} (h : Mirrors o m past) {task : Task} {ret : Int}
    {mem : UInt64 → Sock} {victim : UInt64}
    (hroom : (m.sockStores.lookup task.ptid).all (m.connsInfo.HasRoom ·) = true) :
    Mirrors o (tcpV4ConnectExit o victim task ret mem m) (.v4ConnectExit task ret mem victim :: past) := by
  have hcalled := h.stored task.ptid
  rcases tcpV4ConnectExit_cases o victim task ret mem m with
    ⟨hl, hm⟩ | ⟨sk, hl, ⟨hret, hm⟩ | ⟨hret, hconn, hm⟩ | ⟨hret, conn, hconn, hm⟩⟩ <;>
    rw [hm] <;> refine ⟨fun ptid => ?_, fun k => ?_⟩ <;> simp only [lastCalled, openedBy, ← hcalled]
  · split
    · rename_i hfail
      rw [← hfail.1, hl]
    · exact h.stored ptid
  · simp [hl, h.opened]
  · simp [hret, BoundedMap.lookup_delete, h.stored, eq_comm]
  · simp [hret, h.opened]
  · simp [hret, h.stored]
  · rw [if_neg, h.opened]
    rintro ⟨-, hk, hsome⟩
    cases hl.symm.trans hk
    simp [hconn] at hsome
  · simp [hret, h.stored]
  · have hsk : m.connsInfo.HasRoom sk := by simpa [hl] using hroom
    rw [opened_update hsk hconn, h.opened]
    by_cases hk : k = sk
    · subst hk
      simp [hl, hret, hconn]
    · simp [hl, hk, Ne.symm hk]

/-- The code of the v6 probes is that of the v4 ones, and their events tell the same. -/
theorem Mirrors.v6 {m : Maps} {past : List Ev} {ptid sk victim : UInt64}
    (h : Mirrors o m (.v4Connect ptid sk victim :: past)) : Mirrors o m (.v6Connect ptid sk victim :: past) :=
  ⟨h.stored, h.opened⟩

theorem Mirrors.v6Exit {m : Maps} {past : List Ev} {task : Task} {ret : Int} {mem : UInt64 → Sock}
    {victim : UInt64} (h : Mirrors o m (.v4ConnectExit task ret mem victim :: past)) :
    Mirrors o m (.v6ConnectExit task ret mem victim :: past) :=
  ⟨h.stored, h.opened⟩

/-- Without `-a`. -/
theorem Mirrors.setState {m : Maps} {past : List Ev} (h : Mirrors o m past) (ha : o.allConn = false) (sk : UInt64)
    (state : Int) : Mirrors o (tcpSetState o sk state m) (.setState sk state :: past) := by
  have hopened := h.opened sk
  by_cases hclose : state = tcpClose ∧ m.Tracked sk
  · obtain ⟨rfl, ht⟩ := hclose
    obtain ⟨value, hconn⟩ := tracked_iff.mp ht
    rw [hconn, Option.map_some] at hopened
    rw [tcpSetState_close ha hconn]
    refine ⟨fun ptid => ?_, fun k => ?_⟩
    · simp only [BoundedMap.lookup_delete, lastCalled, ← hopened, true_and, Option.some.injEq, h.stored, eq_comm]
    · simp only [BoundedMap.lookup_delete, openedBy, and_true]
      by_cases hk : k = sk
      · simp [hk]
      · simp [hk, Ne.symm hk, h.opened]
  · rw [tcpSetState_frame o hclose]
    -- a close of a connection that is not open changes nothing
    have hnone : state = tcpClose → openedBy o sk past = none := by
      intro hs
      rw [← hopened, not_tracked_iff.mp fun ht => hclose ⟨hs, ht⟩, Option.map_none]
    refine ⟨fun ptid => ?_, fun k => ?_⟩
    · rw [lastCalled, h.stored, if_neg]
      rintro ⟨hs, hp⟩
      simp [hnone hs] at hp
    · rw [openedBy, h.opened]
      split
      · rename_i hs
        rw [← hs.1, hnone hs.2]
      · rfl

theorem mirrors_step {e : Ev} {st st' : St} {past : List Ev} (ha : o.allConn = false)
    (h : Mirrors o st.maps past) (hs : step o e st = some st') : Mirrors o st'.maps (e :: past) := by
  cases e with
  | accept task newsk mem victim =>
    simp only [step, Option.ite_none_right_eq_some, Option.some.injEq] at hs
    obtain ⟨⟨-, hroom⟩, rfl⟩ := hs
    exact h.accept hroom
  | v4Connect ptid sk victim =>
    simp only [step, enter, Option.ite_none_right_eq_some, Option.some.injEq] at hs
    obtain ⟨⟨-, hroom⟩, rfl⟩ := hs
    exact h.connect hroom
  | v4ConnectExit task ret mem victim =>
    simp only [step, leave, Option.ite_none_right_eq_some, Option.some.injEq] at hs
    obtain ⟨⟨-, hroom⟩, rfl⟩ := hs
    exact h.connectExit hroom
  | v6Connect ptid sk victim =>
    simp only [step, enter, Option.ite_none_right_eq_some, Option.some.injEq] at hs
    obtain ⟨⟨-, hroom⟩, rfl⟩ := hs
    exact (h.connect hroom).v6
  | v6ConnectExit task ret mem victim =>
    simp only [step, leave, Option.ite_none_right_eq_some, Option.some.injEq] at hs
    obtain ⟨⟨-, hroom⟩, rfl⟩ := hs
    exact (h.connectExit hroom).v6Exit
  | setState sk state =>
    cases hs
    exact h.setState ha sk state
  | checksum ptid ret owner =>
    cases hs
    exact ⟨h.stored, h.opened⟩

/-- The socket that the event calls connect with. -/
def Ev.connectsTo : Ev → Option UInt64
  | .v4Connect _ sk _ | .v6Connect _ sk _ => some sk
  | _ => none

/-- What a thread has called connect with is in the past. -/
theorem connectsTo_of_lastCalled {ptid sk : UInt64} {past : List Ev} (h : lastCalled o ptid past = some sk) :
    ∃ e ∈ past, e.connectsTo = some sk := by
  induction past with
  | nil => simp [lastCalled] at h
  | cons e past ih =>
    have hold : lastCalled o ptid past = some sk → ∃ e' ∈ e :: past, e'.connectsTo = some sk := by
      intro hp
      obtain ⟨e', he', hcon⟩ := ih hp
      exact ⟨e', List.mem_cons_of_mem _ he', hcon⟩
    cases e with
    | v4Connect p s victim | v6Connect p s victim =>
      rw [lastCalled] at h
      split at h
      · exact ⟨_, List.mem_cons_self, h⟩
      · exact hold h
    | v4ConnectExit task ret mem victim | v6ConnectExit task ret mem victim | setState s state =>
      rw [lastCalled, Option.ite_none_left_eq_some] at h
      exact hold h.2
    | accept task newsk mem victim | checksum p ret owner =>
      rw [lastCalled] at h
      exact hold h

theorem ownError_iff {past : List Ev} {st : St} (h : Mirrors o st.maps past) (ptid : UInt64) (ret : Int)
    (owner : Option UInt64) :
    (ret ≠ 0 → st.maps.stored ptid = owner.filter st.maps.Tracked) ↔ OwnError o past (.checksum ptid ret owner) := by
  have htracked : ∀ sk, decide (st.maps.Tracked sk) = (openedBy o sk past).isSome := by
    intro sk
    rw [← h.opened, Option.isSome_map, Bool.eq_iff_iff, decide_eq_true_iff, tracked_iff, Option.isSome_iff_exists]
  have hstored : st.maps.stored ptid = lastOpened o ptid past := by
    simp only [Maps.stored, lastOpened, h.stored, htracked]
  refine forall_congr' fun _ => ?_
  rw [hstored]
  simp only [htracked]
  rcases hl : lastOpened o ptid past with _ | sk
  · simp only [reduceCtorEq, Option.mem_def, false_implies, implies_true, true_and, forall_const]
    rw [eq_comm, Option.filter_eq_none_iff]
    simp
  · have hopen : (openedBy o sk past).isSome := (Option.filter_eq_some_iff.mp hl).2
    simp only [Option.mem_def, Option.some.injEq, forall_eq', reduceCtorEq, false_implies, and_true]
    constructor
    · intro heq
      exact (Option.filter_eq_some_iff.mp heq.symm).1
    · intro hown
      exact (Option.filter_eq_some_iff.mpr ⟨hown, hopen⟩).symm

/-- An error of an open connection that no thread has called connect with is not a thread's own. -/
theorem not_own_of_never_called {past : List Ev} {ptid sk : UInt64} {ret : Int} (hret : ret ≠ 0)
    (hopen : (openedBy o sk past).isSome) (hcall : ∀ e ∈ past, e.connectsTo ≠ some sk) :
    ¬ OwnError o past (.checksum ptid ret (some sk)) := by
  intro hown
  obtain ⟨hlast, hnone⟩ := hown hret
  rcases hl : lastOpened o ptid past with _ | s
  · simp [hnone hl sk rfl] at hopen
  · have hs : sk = s := Option.some.inj (hlast s hl)
    subst hs
    obtain ⟨e, he, hcon⟩ := connectsTo_of_lastCalled (Option.filter_eq_some_iff.mp hl).1
    exact hcall e he hcon

/-- A step keeps the first law if and only if it meets its condition. -/
theorem step_attributed {sport dport : UInt16} {e : Ev} {st st' : St} {past : List Ev}
    (hm : Mirrors ⟨true, false, sport, dport⟩ st.maps past) (h : step ⟨true, false, sport, dport⟩ e st = some st') :
    Attributed st' ↔ Attributed st ∧ OwnError ⟨true, false, sport, dport⟩ past e := by
  have hsame : st'.checks = st.checks → (Attributed st' ↔ Attributed st ∧ True) := by
    intro hc
    rw [and_true, Attributed, hc]
    rfl
  cases e with
  | checksum ptid ret owner =>
    cases h
    simp only [Attributed, List.forall_mem_append, List.forall_mem_singleton]
    exact and_congr_right fun _ => (check_attributed_iff sport dport ptid ret owner st.maps).trans
      (ownError_iff hm ptid ret owner)
  | setState sk state =>
    cases h
    exact hsame rfl
  | _ =>
    simp only [step, enter, leave, Option.ite_none_right_eq_some, Option.some.injEq] at h
    exact hsame (by rw [← h.2])

/-- From any state whose maps hold what has happened. -/
theorem run_attributed {sport dport : UInt16} {es : List Ev} {st st' : St} {past : List Ev}
    (hm : Mirrors ⟨true, false, sport, dport⟩ st.maps past) (h : exec (step ⟨true, false, sport, dport⟩) es st = some st') :
    Attributed st' ↔ Attributed st ∧ OwnErrors ⟨true, false, sport, dport⟩ past es := by
  induction es generalizing st past with
  | nil =>
    cases h
    rw [OwnErrors, and_true]
  | cons e es ih =>
    obtain ⟨v, hv, hes⟩ := Option.bind_eq_some_iff.mp h
    rw [ih (mirrors_step rfl hm hv) hes, step_attributed hm hv, OwnErrors, and_assoc]

variable (o)

theorem step_forgets (errPacket : Bool) (sport dport : UInt16) {e : Ev} {st st' : St}
    (h : step ⟨errPacket, false, sport, dport⟩ e st = some st') :
    Forgets st' ↔ Forgets st ∧ StoredIsClosed e st := by
  have hsame : st'.closes = st.closes → (Forgets st' ↔ Forgets st ∧ True) := by
    intro hc
    rw [and_true, Forgets, hc]
    rfl
  cases e with
  | setState sk state =>
    cases h
    by_cases hs : state = tcpClose ∧ st.maps.Tracked sk
    · obtain ⟨rfl, ht⟩ := hs
      obtain ⟨conn, hconn⟩ := tracked_iff.mp ht
      have hcond : StoredIsClosed (.setState sk tcpClose) st ↔
          ∀ s ∈ st.maps.sockStores.lookup conn.ptid, s = sk := by
        simp [StoredIsClosed, hconn]
      simp only [Forgets, ht, and_self, if_true, List.forall_mem_append, List.forall_mem_singleton, hcond]
      exact and_congr_right fun _ => close_forgets_iff hconn
    · have hcond : StoredIsClosed (.setState sk state) st := by
        intro hst conn hconn
        exact absurd ⟨hst, tracked_iff.mpr ⟨conn, hconn⟩⟩ hs
      simp only [Forgets, if_neg hs, hcond, and_true]
  | checksum ptid ret owner =>
    cases h
    exact hsame rfl
  | _ =>
    simp only [step, enter, leave, Option.ite_none_right_eq_some, Option.some.injEq] at h
    exact hsame (by rw [← h.2])

/-- With `-e` and without `-a`, whatever the filters. -/
theorem attributed_iff (sport dport : UInt16) {es : List Ev} {st : St}
    (h : exec (step ⟨true, false, sport, dport⟩) es init = some st) :
    Attributed st ↔ OwnErrors ⟨true, false, sport, dport⟩ [] es := by
  have hm : Mirrors ⟨true, false, sport, dport⟩ init.maps [] :=
    ⟨fun _ => BoundedMap.lookup_empty _, fun _ => by simp [init, openedBy]⟩
  have hnone : Attributed init := fun _ hc => by cases hc
  rw [run_attributed hm h]
  exact and_iff_right hnone

/-- Without `-a`. -/
theorem forgets_iff (errPacket : Bool) (sport dport : UInt16) {es : List Ev} {st : St}
    (h : exec (step ⟨errPacket, false, sport, dport⟩) es init = some st) :
    Forgets st ↔ execIf (step ⟨errPacket, false, sport, dport⟩) StoredIsClosed es init = some st :=
  holds_iff_of_step (I := fun _ => True) (fun _ _ _ _ _ => trivial)
    (fun _ _ _ _ hs => step_forgets errPacket sport dport hs) trivial (fun _ hc => by cases hc) h

/-! ## A few connections -/

def someSock : Sock := ⟨ipprotoTcp, afInet, 0x5000, 4000, 0x0200000a, 0x0100000a, 0, 0⟩

def someTask (ptid : UInt64) : Task := ⟨ptid, [], 5000⟩

/-- `-e` alone. -/
def withErr : Options := ⟨true, false, 0, 0⟩

/-- Thread 7 connects a socket. -/
def opens (sk : UInt64) : List Ev := [.v4Connect 7 sk 0, .v4ConnectExit (someTask 7) 0 (fun _ => someSock) 0]

/-- Threads 7 and 8 connect 1 and 2, and the errors of each come while its thread runs; 1 is closed
    and has one more; the last two are of no connection, and no error at all. -/
def ownErrors : List Ev := opens 1 ++
  [.v6Connect 8 2 0, .checksum 7 1 (some 1), .v6ConnectExit (someTask 8) 0 (fun _ => someSock) 0,
   .checksum 8 1 (some 2), .setState 1 tcpClose, .checksum 7 1 (some 1), .checksum 9 1 none,
   .accept (someTask 9) (some 3) (fun _ => someSock) 0, .checksum 7 0 (some 3)]

theorem own_error_is_attributed :
    ∃ st, exec (step withErr) ownErrors init = some st ∧
      st.checks.map Check.packet = [some ⟨2, 1⟩, some ⟨2, 2⟩, none, none, none] ∧ Attributed st := by
  have hrun : (exec (step withErr) ownErrors init).map (fun st => st.checks.map Check.packet) =
      some [some ⟨2, 1⟩, some ⟨2, 2⟩, none, none, none] := by decide +kernel
  obtain ⟨st, hexec, hs⟩ := Option.map_eq_some_iff.mp hrun
  exact ⟨st, hexec, hs, (attributed_iff 0 0 hexec).mpr (by decide +kernel)⟩

/-- A packet of connection 2 is corrupted while thread 7 runs, which has connected 1. -/
theorem reported_for_another : ∃ st, Run (step withErr) anyEvent init st ∧ ¬ Attributed st := by
  obtain ⟨st, hr, hs⟩ := run_of_exec_any (step withErr) init
    (opens 1 ++ [.accept (someTask 8) (some 2) (fun _ => someSock) 0, .checksum 7 1 (some 2)])
    (fun st => st.checks.any fun c => decide (c.packet = some ⟨2, 1⟩ ∧ c.owner = some 2)) (by decide +kernel)
  obtain ⟨c, hc, ht⟩ := List.any_eq_true.mp hs
  obtain ⟨hp, ho⟩ := of_decide_eq_true ht
  refine ⟨st, hr, fun ha => ?_⟩
  have hown := (ha c hc).1 ⟨2, 1⟩ hp rfl
  rw [ho] at hown
  exact absurd hown (by decide)

/-- No thread stores an accepted connection: its errors are not reported. -/
theorem accepted_is_not_reported : ∃ st, Run (step withErr) anyEvent init st ∧ ¬ Attributed st := by
  obtain ⟨st, hr, hs⟩ := run_of_exec_any (step withErr) init
    [.accept (someTask 8) (some 2) (fun _ => someSock) 0, .checksum 8 1 (some 2)]
    (fun st => st.checks.any fun c => decide (c.ret = 1 ∧ c.owner = some 2 ∧ c.before.Tracked 2 ∧ c.packet = none))
    (by decide +kernel)
  obtain ⟨c, hc, ht⟩ := List.any_eq_true.mp hs
  obtain ⟨hret, ho, htr, hp⟩ := of_decide_eq_true ht
  refine ⟨st, hr, fun ha => ?_⟩
  obtain ⟨packet, hsome, -⟩ := (ha c hc).2 (by rw [hret]; decide) 2 ho htr
  rw [hp] at hsome
  cases hsome

/-- Thread 7 connects 1, thread 8 accepts 2, and both are closed. -/
theorem two_threads_forget :
    ∃ st, exec (step withErr) (opens 1 ++ [.accept (someTask 8) (some 2) (fun _ => someSock) 0,
        .setState 2 tcpClose, .setState 1 tcpClose]) init = some st ∧
      st.closes.map Close.sk = [2, 1] ∧ Forgets st := by
  obtain ⟨st, hexec, hif, hs⟩ := execIf_any (step withErr) StoredIsClosed init
    (opens 1 ++ [.accept (someTask 8) (some 2) (fun _ => someSock) 0, .setState 2 tcpClose, .setState 1 tcpClose])
    (fun st => decide (st.closes.map Close.sk = [2, 1])) (by decide +kernel)
  exact ⟨st, hexec, of_decide_eq_true hs, (forgets_iff true 0 0 hexec).mpr hif⟩

/-- Thread 7 connects 1 and 2, and 1 is closed: what is stored for 7 is 2, and goes. -/
theorem close_forgets_another : ∃ st, Run (step withErr) anyEvent init st ∧ ¬ Forgets st := by
  obtain ⟨st, hr, hs⟩ := run_of_exec_any (step withErr) init (opens 1 ++ opens 2 ++ [.setState 1 tcpClose])
    (fun st => st.closes.any fun c => decide (c.sk = 1 ∧ c.before.sockStores.lookup 7 = some 2 ∧
      c.after.sockStores.lookup 7 = none)) (by decide +kernel)
  obtain ⟨c, hc, ht⟩ := List.any_eq_true.mp hs
  obtain ⟨hsk, hb, ha⟩ := of_decide_eq_true ht
  refine ⟨st, hr, fun hf => ?_⟩
  have := (hf c hc).stored 7 2 hb ha
  rw [hsk] at this
  exact absurd this (by decide)

end Ksight.Netwatcher.Conns

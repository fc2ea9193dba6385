/-
  Ksight.Tcpaccd.Redirect — which socket a message is redirected to
  (src/net/tcpaccd/bpf/tcpaccd.bpf.c; the daemon attaches to the root cgroup by default,
  include/ConfigArgs.h, so the sockets of every container share the map).

  Sockets open, run their establishment callbacks, send and close, in any order. A
  namespace gives a 4-tuple to one socket at a time, and two of its sockets with mirrored
  4-tuples are the ends of one connection. Nothing of the kind holds across namespaces:
  the address a container has inside may be a remote host's outside. A socket that closes
  leaves the map.

  The law (`Delivery.Right`): a message is redirected to the other end of its own
  connection, or takes the TCP path. `redirected_to_the_peer`: it holds of every message
  of a run in which a socket never meets a mirrored 4-tuple of another namespace's
  connection, neither when it opens nor when it is entered. Otherwise it fails
  (`bytes_cross_namespaces`): the client of a remote service is answered for by a
  container that happens to use the service's address.
-/

import Mathlib.Data.Finset.Insert
import Ksight.Lib.Run
import Ksight.Tcpaccd.SockMap

namespace Ksight.Tcpaccd.Redirect

open Ksight.Lib

inductive Path where
  | redirected (target : Sock)
  | tcp
  | dropped
  deriving DecidableEq

/-- What the kernel does with a message of that verdict. -/
def pathOf : SkAction × Option Sock → Path
  | (.drop, _) => .dropped
  | (.pass, some y) => .redirected y
  | (.pass, none) => .tcp

structure Delivery where
  sender : Sock
  path : Path
  deriving DecidableEq

structure St where
  opened : Finset Sock
  sockOpsMap : BoundedMap SockKey Sock maxEntries
  /-- The messages sent so far, the last one first. -/
  sent : List Delivery

def init : St := ⟨∅, .empty, []⟩

inductive Ev where
  | connect (s : Sock)
  | sockops (s : Sock) (op : Nat)
  | sendmsg (s : Sock)
  | close (s : Sock)

/-- What a network namespace guarantees of a new socket. -/
def Unique (opened : Finset Sock) (s : Sock) : Prop :=
  ∀ t ∈ opened, t.ns = s.ns →
    ¬ (t.localIp = s.localIp ∧ t.localPort = s.localPort ∧ t.remoteIp = s.remoteIp ∧
      t.remotePort = s.remotePort) ∧
    (t.Mirrors s → t.conn = s.conn)

instance (opened : Finset Sock) (s : Sock) : Decidable (Unique opened s) :=
  inferInstanceAs (Decidable (∀ t ∈ opened, _ → _ ∧ _))

/-- The map without the socket `s`. -/
def forget (m : BoundedMap SockKey Sock maxEntries) (s : Sock) : BoundedMap SockKey Sock maxEntries :=
  if m.lookup s.opsKey = some s then m.delete s.opsKey else m

/-- The messages of every open socket run `bpf_redir`. The kernel runs the program of a sockmap for
    the sockets that are entered in it only. -/
def step : Ev → St → Option St
  | .connect s, st => if Unique st.opened s then some { st with opened := insert s st.opened } else none
  | .sockops s op, st =>
    if s ∈ st.opened then
      some { st with sockOpsMap := bpfSockmap s (s.skops op) st.sockOpsMap }
    else none
  | .sendmsg s, st =>
    if s ∈ st.opened then
      some { st with sent := ⟨s, pathOf (bpfRedir st.sockOpsMap s.context)⟩ :: st.sent }
    else none
  | .close s, st =>
    if s ∈ st.opened then
      some { st with opened := st.opened.erase s, sockOpsMap := forget st.sockOpsMap s }
    else none

/-! ## The law -/

/-- `y` is the other end of the connection of `s`. -/
def Peer (y s : Sock) : Prop := y.conn = s.conn ∧ y.Mirrors s

instance (y s : Sock) : Decidable (Peer y s) := inferInstanceAs (Decidable (_ ∧ _))

def Delivery.Right (d : Delivery) : Prop :=
  match d.path with
  | .redirected y => Peer y d.sender
  | .tcp => True
  | .dropped => False

instance (d : Delivery) : Decidable d.Right :=
  match h : d.path with
  | .redirected y => decidable_of_iff (Peer y d.sender) (by simp [Delivery.Right, h])
  | .tcp => isTrue (by simp [Delivery.Right, h])
  | .dropped => isFalse (by simp [Delivery.Right, h])

/-- The condition: a new socket is mirrored by no socket in the map, and a socket entered
    in the map mirrors no open one, of another namespace and another connection. -/
def Apart : Ev → St → Prop
  | .connect s, st => ∀ y ∈ st.opened, st.sockOpsMap.lookup y.opsKey = some y → y.Mirrors s →
    y.ns = s.ns ∨ y.conn = s.conn
  | .sockops y op, st =>
    Enters (y.skops op) st.sockOpsMap → ∀ s ∈ st.opened, y.Mirrors s → y.ns = s.ns ∨ y.conn = s.conn
  | _, _ => True

instance : ∀ (e : Ev) (st : St), Decidable (Apart e st)
  | .connect _, _ => inferInstanceAs (Decidable (∀ y ∈ _, _))
  | .sockops .., _ => inferInstanceAs (Decidable (_ → ∀ y ∈ _, _))
  | .sendmsg _, _ | .close _, _ => inferInstanceAs (Decidable True)

/-! ## The invariant -/

structure Inv (st : St) : Prop where
  /-- An entry is an open socket under its own key. -/
  entered : ∀ k y, st.sockOpsMap.lookup k = some y → y ∈ st.opened ∧ k = y.opsKey
  /-- Within a namespace mirrored sockets are the ends of one connection. -/
  mirrored : ∀ y ∈ st.opened, ∀ s ∈ st.opened, y.ns = s.ns → y.Mirrors s → y.conn = s.conn
  found : ∀ s ∈ st.opened, ∀ y, st.sockOpsMap.lookup s.msgKey = some y → y.conn = s.conn
  right : ∀ d ∈ st.sent, d.Right

theorem mirrors_symm {t s : Sock} (h : t.Mirrors s) : s.Mirrors t := by
  obtain ⟨h1, h2, h3, h4⟩ := h
  exact ⟨h3.symm, h4.symm, h1.symm, h2.symm⟩

theorem init_inv : Inv init :=
  ⟨fun _ _ h => by simp [init] at h, fun _ h => absurd h (Finset.notMem_empty _),
    fun _ h => absurd h (Finset.notMem_empty _), fun _ h => absurd h List.not_mem_nil⟩

/-- What the map holds under the key of a message mirrors its socket. -/
theorem mirrors_of_lookup {st : St} (hi : Inv st) {s y : Sock} (h : st.sockOpsMap.lookup s.msgKey = some y) :
    y ∈ st.opened ∧ st.sockOpsMap.lookup y.opsKey = some y ∧ y.Mirrors s := by
  obtain ⟨ho, hk⟩ := hi.entered _ _ h
  exact ⟨ho, hk ▸ h, (key_eq_iff s y).mp hk⟩

theorem connect_inv {st : St} {s : Sock} (hi : Inv st) (hu : Unique st.opened s)
    (ha : Apart (.connect s) st) :
    Inv { st with opened := insert s st.opened } := by
  refine ⟨?_, ?_, ?_, hi.right⟩
  · intro k y h
    obtain ⟨ho, hk⟩ := hi.entered k y h
    exact ⟨Finset.mem_insert_of_mem ho, hk⟩
  · intro y hy t ht hns hm
    rcases Finset.mem_insert.mp hy with rfl | hyo <;> rcases Finset.mem_insert.mp ht with rfl | hto
    · rfl
    · exact ((hu t hto hns.symm).2 (mirrors_symm hm)).symm
    · exact (hu y hyo hns).2 hm
    · exact hi.mirrored y hyo t hto hns hm
  · intro t ht y h
    rcases Finset.mem_insert.mp ht with rfl | ht
    · obtain ⟨ho, hl, hm⟩ := mirrors_of_lookup hi h
      exact (ha y ho hl hm).elim (fun hns => (hu y ho hns).2 hm) id
    · exact hi.found t ht y h

theorem sockops_inv {st : St} {y : Sock} {op : Nat} (hi : Inv st) (hy : y ∈ st.opened)
    (ha : Apart (.sockops y op) st) :
    Inv { st with sockOpsMap := bpfSockmap y (y.skops op) st.sockOpsMap } := by
  rcases bpfSockmap_cases y (y.skops op) st.sockOpsMap with h | ⟨henters, h⟩
  · rw [h]; exact hi
  · refine ⟨?_, hi.mirrored, ?_, hi.right⟩
    · intro k z hz
      simp only [h] at hz
      split at hz
      · rename_i hk
        cases hz
        exact ⟨hy, hk⟩
      · exact hi.entered k z hz
    · intro s hs z hz
      simp only [h] at hz
      split at hz
      · rename_i hk
        cases hz
        have hm : y.Mirrors s := (key_eq_iff s y).mp hk
        exact (ha henters s hs hm).elim (fun hns => hi.mirrored y hy s hs hns hm) id
      · exact hi.found s hs z hz

theorem sendmsg_inv {st : St} {s : Sock} (hi : Inv st) (hs : s ∈ st.opened) :
    Inv { st with sent := ⟨s, pathOf (bpfRedir st.sockOpsMap s.context)⟩ :: st.sent } := by
  refine ⟨hi.entered, hi.mirrored, hi.found, ?_⟩
  intro d hd
  rcases List.mem_cons.mp hd with rfl | hd
  · show (match pathOf (.pass, st.sockOpsMap.lookup s.msgKey) with
      | .redirected y => Peer y s | .tcp => True | .dropped => False)
    rcases hl : st.sockOpsMap.lookup s.msgKey with _ | y
    · trivial
    · exact ⟨hi.found s hs y hl, (mirrors_of_lookup hi hl).2.2⟩
  · exact hi.right d hd

theorem lookup_forget {m : BoundedMap SockKey Sock maxEntries} {s y : Sock} {k : SockKey}
    (hm : ∀ k y, m.lookup k = some y → k = y.opsKey) (h : (forget m s).lookup k = some y) :
    m.lookup k = some y ∧ y ≠ s := by
  unfold forget at h
  split at h
  · rw [BoundedMap.lookup_delete] at h
    split at h
    · cases h
    · rename_i hne
      exact ⟨h, fun e => hne (e ▸ hm k y h)⟩
  · rename_i hne
    exact ⟨h, fun e => hne (e ▸ hm k y h ▸ h)⟩

theorem close_inv {st : St} {s : Sock} (hi : Inv st) :
    Inv { st with opened := st.opened.erase s, sockOpsMap := forget st.sockOpsMap s } := by
  have hf := fun {k y} => lookup_forget (s := s) (k := k) (y := y) fun k y h => (hi.entered k y h).2
  refine ⟨?_, ?_, ?_, hi.right⟩
  · intro k y h
    obtain ⟨hl, hne⟩ := hf h
    obtain ⟨ho, hk⟩ := hi.entered k y hl
    exact ⟨Finset.mem_erase.mpr ⟨hne, ho⟩, hk⟩
  · intro y hy t ht
    exact hi.mirrored y (Finset.mem_of_mem_erase hy) t (Finset.mem_of_mem_erase ht)
  · intro t ht y h
    exact hi.found t (Finset.mem_of_mem_erase ht) y (hf h).1

theorem step_inv {e : Ev} {st st' : St} (hi : Inv st) (ha : Apart e st) (h : step e st = some st') :
    Inv st' := by
  cases e <;> simp only [step, Option.ite_none_right_eq_some, Option.some.injEq] at h <;>
    obtain ⟨hg, rfl⟩ := h
  case connect => exact connect_inv hi hg ha
  case sockops => exact sockops_inv hi hg ha
  case sendmsg => exact sendmsg_inv hi hg
  case close => exact close_inv hi

/-- In a run that keeps the namespaces apart every message goes to its own peer or takes
    the TCP path. -/
theorem redirected_to_the_peer {st : St} (h : Run step Apart init st) : ∀ d ∈ st.sent, d.Right :=
  (h.inv init_inv fun _ _ _ hi ha hs => step_inv hi ha hs).right

/-- A local connection: 127.0.0.1:40000 to 127.0.0.1:80. -/
def client : Sock := ⟨0, 1, 16777343, 40000, 16777343, 80⟩

def server : Sock := ⟨0, 1, 16777343, 80, 16777343, 40000⟩

theorem redirected_to_the_local_server :
    ∃ st, Run step Apart init st ∧ st.sent = [⟨client, .redirected server⟩] ∧ ∀ d ∈ st.sent, d.Right := by
  obtain ⟨st, hr, hs⟩ := run_of_execIf_any step Apart init
    [.connect client, .connect server, .sockops client activeEstablishedCb,
      .sockops server passiveEstablishedCb, .sendmsg client]
    (fun st => decide (st.sent = [⟨client, .redirected server⟩])) (by decide +kernel)
  exact ⟨st, hr, of_decide_eq_true hs, redirected_to_the_peer hr⟩

/-- A client of the remote service 10.0.0.2:80, and a container's socket at 10.0.0.2:80
    whose remote peer has the client's address. -/
def caller : Sock := ⟨0, 1, 16777226, 1000, 33554442, 80⟩

def stranger : Sock := ⟨1, 2, 33554442, 80, 16777226, 1000⟩

theorem bytes_cross_namespaces : ∃ st, Run step anyEvent init st ∧ ∃ d ∈ st.sent, ¬ d.Right := by
  obtain ⟨st, hr, hs⟩ := run_of_exec_any step init
    [.connect caller, .connect stranger, .sockops caller activeEstablishedCb,
      .sockops stranger passiveEstablishedCb, .sendmsg caller]
    (fun st => decide (∃ d ∈ st.sent, ¬ d.Right)) (by decide +kernel)
  exact ⟨st, hr, of_decide_eq_true hs⟩

end Ksight.Tcpaccd.Redirect

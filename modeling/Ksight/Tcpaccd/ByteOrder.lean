/-
  Ksight.Tcpaccd.ByteOrder — the order in which the bytes of a local connection arrive
  (src/net/tcpaccd/bpf/tcpaccd.bpf.c).

  Either direction has a network path, first in first out. A message for which `bpf_redir`
  finds a socket is in the receive queue at once, any other takes the path and is in the
  queue when it is delivered. The callbacks of the two ends, their messages and the
  deliveries come in any order.

  The law (`InOrder`): what an end has received is a prefix of what the other one sent.
  `received_in_order`: it holds in every run in which no redirected message overtakes
  other bytes of its direction (`NoOvertaking`), and `overtaking_loses_the_order`: the
  first message that does overtake them breaks it once the path is delivered. A client
  does so with no help: what it sends before the server's callback takes the path, what
  it sends after it does not (`second_message_first`).
-/

import Mathlib.Data.List.Infix
import Ksight.Tcpaccd.Redirect

namespace Ksight.Tcpaccd.ByteOrder

open Ksight.Lib Ksight.Tcpaccd.Redirect

inductive Side where
  | client
  | server
  deriving DecidableEq

def Side.peer : Side → Side
  | .client => .server
  | .server => .client

/-- The two sockets of a local connection. -/
structure Connection where
  sock : Side → Sock
  mirrors : (sock .server).Mirrors (sock .client)

/-- One direction of a connection. -/
structure Flow where
  sent : List UInt8
  /-- The messages on the network path, the one delivered next first. -/
  path : List (List UInt8)
  recv : List UInt8

structure St where
  sockOpsMap : BoundedMap SockKey Sock maxEntries
  /-- The direction in which a side sends. -/
  flow : Side → Flow

def init (sockOpsMap : BoundedMap SockKey Sock maxEntries) : St := ⟨sockOpsMap, fun _ => ⟨[], [], []⟩⟩

inductive Ev where
  | sockops (s : Side) (op : Nat)
  | sendmsg (s : Side) (bytes : List UInt8)
  | deliver (s : Side)

/-- The kernel's part in a message: `Redirect` is about which socket is found. -/
def Flow.send (f : Flow) (bytes : List UInt8) : Path → Flow
  | .redirected _ => { f with sent := f.sent ++ bytes, recv := f.recv ++ bytes }
  | .tcp => { f with sent := f.sent ++ bytes, path := f.path ++ [bytes] }
  | .dropped => { f with sent := f.sent ++ bytes }

variable (c : Connection)

/-- The way a message of `s` takes now. -/
def St.pathOf (st : St) (s : Side) : Path := Redirect.pathOf (bpfRedir st.sockOpsMap (c.sock s).context)

def step : Ev → St → Option St
  | .sockops s op, st =>
    some { st with sockOpsMap := bpfSockmap (c.sock s) ((c.sock s).skops op) st.sockOpsMap }
  | .sendmsg s bytes, st =>
    some { st with flow := Function.update st.flow s ((st.flow s).send bytes (st.pathOf c s)) }
  | .deliver s, st =>
    match (st.flow s).path with
    | [] => none
    | bytes :: path =>
      some { st with
        flow := Function.update st.flow s { st.flow s with path := path, recv := (st.flow s).recv ++ bytes } }

/-! ## The law -/

def InOrder (st : St) : Prop := ∀ s, (st.flow s).recv <+: (st.flow s).sent

/-- The condition: a redirected message finds nothing on the path of its direction, or
    only bytes that read the same after it as before it. -/
def NoOvertaking : Ev → St → Prop
  | .sendmsg s bytes, st => st.pathOf c s ≠ .tcp →
    bytes ++ (st.flow s).path.flatten = (st.flow s).path.flatten ++ bytes
  | _, _ => True

instance : ∀ (e : Ev) (st : St), Decidable (NoOvertaking c e st)
  | .sockops .., _ => inferInstanceAs (Decidable True)
  | .sendmsg .., _ => inferInstanceAs (Decidable (_ → _))
  | .deliver _, _ => inferInstanceAs (Decidable True)

/-- The bytes received and those under way are the bytes sent. -/
def Inv (st : St) : Prop := ∀ s, (st.flow s).recv ++ (st.flow s).path.flatten = (st.flow s).sent

theorem inv_inOrder {st : St} (hi : Inv st) : InOrder st := fun s => ⟨_, hi s⟩

theorem init_inv (m : BoundedMap SockKey Sock maxEntries) : Inv (init m) := fun _ => rfl

/-- `bpf_redir` drops nothing. -/
theorem pathOf_ne_dropped (st : St) (s : Side) : st.pathOf c s ≠ .dropped := by
  unfold St.pathOf bpfRedir
  rcases st.sockOpsMap.lookup _ with _ | y <;> simp [Redirect.pathOf]

/-- A change of one direction that keeps its equation keeps the invariant. -/
theorem update_inv {st : St} {s : Side} {f : Flow} (hi : Inv st) (hf : f.recv ++ f.path.flatten = f.sent) :
    Inv { st with flow := Function.update st.flow s f } := by
  intro t
  by_cases e : t = s
  · subst e
    simpa using hf
  · simpa [Function.update_of_ne e] using hi t

theorem step_inv {e : Ev} {st st' : St} (hi : Inv st) (hn : NoOvertaking c e st) (h : step c e st = some st') :
    Inv st' := by
  cases e with
  | sockops s op =>
    cases h
    exact hi
  | sendmsg s bytes =>
    cases h
    apply update_inv hi
    rcases hp : st.pathOf c s with y | _ | _
    · have hcomm : bytes ++ (st.flow s).path.flatten = (st.flow s).path.flatten ++ bytes := hn (by simp [hp])
      show ((st.flow s).recv ++ bytes) ++ (st.flow s).path.flatten = (st.flow s).sent ++ bytes
      rw [List.append_assoc, hcomm, ← List.append_assoc, hi s]
    · show (st.flow s).recv ++ ((st.flow s).path ++ [bytes]).flatten = (st.flow s).sent ++ bytes
      rw [List.flatten_append, List.flatten_singleton, ← List.append_assoc, hi s]
    · exact absurd hp (pathOf_ne_dropped c st s)
  | deliver s =>
    simp only [step] at h
    split at h
    · cases h
    · rename_i bytes path hp
      cases h
      apply update_inv hi
      have := hi s
      rw [hp, List.flatten_cons, ← List.append_assoc] at this
      exact this

/-- In a run without overtaking, the receive queue of either end is a prefix of what the
    other end sent. -/
theorem received_in_order {m : BoundedMap SockKey Sock maxEntries} {st : St}
    (h : Run (step c) (NoOvertaking c) (init m) st) : InOrder st :=
  inv_inOrder (h.inv (init_inv m) fun _ _ _ hi hn hs => step_inv c hi hn hs)

/-- The client and the server of `Redirect`. -/
def localConnection : Connection where
  sock
    | .client => client
    | .server => server
  mirrors := by decide

theorem received_after_delivery :
    ∃ st, Run (step localConnection) (NoOvertaking localConnection) (init .empty) st ∧
      (st.flow .client).recv = [1, 2] ∧ InOrder st := by
  obtain ⟨st, hr, hs⟩ := run_of_execIf_any (step localConnection) (NoOvertaking localConnection) (init .empty)
    [.sockops .client activeEstablishedCb, .sendmsg .client [1], .sockops .server passiveEstablishedCb,
      .deliver .client, .sendmsg .client [2]]
    (fun st => decide ((st.flow .client).recv = [1, 2])) (by decide +kernel)
  exact ⟨st, hr, of_decide_eq_true hs, received_in_order localConnection hr⟩

theorem second_message_first :
    ∃ st, Run (step localConnection) anyEvent (init .empty) st ∧ ¬ InOrder st := by
  obtain ⟨st, hr, hs⟩ := run_of_exec_any (step localConnection) (init .empty)
    [.sockops .client activeEstablishedCb, .sendmsg .client [1], .sockops .server passiveEstablishedCb,
      .sendmsg .client [2]]
    (fun st => decide (¬ (st.flow .client).recv <+: (st.flow .client).sent)) (by decide +kernel)
  exact ⟨st, hr, fun h => of_decide_eq_true hs (h .client)⟩

/-! ## Overtaking breaks the order -/

/-- The network delivers all that is on a path. -/
theorem drain (s : Side) : ∀ (path : List (List UInt8)) (st : St), (st.flow s).path = path →
    ∃ st', Run (step c) anyEvent st st' ∧
      st'.flow s = { st.flow s with path := [], recv := (st.flow s).recv ++ path.flatten } := by
  intro path
  induction path with
  | nil =>
    intro st hp
    refine ⟨st, .refl, ?_⟩
    cases hf : st.flow s
    simp_all
  | cons bytes path ih =>
    intro st hp
    obtain ⟨st', hr, hf⟩ := ih { st with
      flow := Function.update st.flow s { st.flow s with path := path, recv := (st.flow s).recv ++ bytes } }
      (by simp)
    have hs : step c (.deliver s) st = some { st with
        flow := Function.update st.flow s { st.flow s with path := path, recv := (st.flow s).recv ++ bytes } } := by
      simp [step, hp]
    refine ⟨st', .trans (.snoc (.deliver s) .refl trivial hs) hr, ?_⟩
    simpa using hf

/-- A message that overtakes bytes which read otherwise after it leaves the order to be
    broken by the deliveries alone. -/
theorem overtaking_loses_the_order {e : Ev} {st st' : St} (hi : Inv st) (hn : ¬ NoOvertaking c e st)
    (h : step c e st = some st') :
    ∃ st'', Run (step c) anyEvent st' st'' ∧ ¬ InOrder st'' := by
  cases e with
  | sockops s op => exact absurd trivial hn
  | deliver s => exact absurd trivial hn
  | sendmsg s bytes =>
    obtain ⟨ht, hne⟩ := Classical.not_imp.mp hn
    rcases hp : st.pathOf c s with y | _ | _
    · cases h
      obtain ⟨st'', hr, hf⟩ := drain c s (st.flow s).path
        { st with flow := Function.update st.flow s ((st.flow s).send bytes (st.pathOf c s)) }
        (by simp [hp, Flow.send])
      refine ⟨st'', hr, fun ho => hne ?_⟩
      have hpre := ho s
      have heq := List.IsPrefix.eq_of_length hpre (by
        have := congrArg List.length (hi s)
        simp [hf, hp, Flow.send] at this ⊢
        omega)
      simp [hf, hp, Flow.send, ← hi s] at heq
      exact heq
    · exact absurd hp ht
    · exact absurd hp (pathOf_ne_dropped c st s)

/-! ## The socket found is the other end's -/

/-- An entry the map did not start with is one of the two ends under its own key. -/
def Entered (m : BoundedMap SockKey Sock maxEntries) (st : St) : Prop :=
  ∀ k y, st.sockOpsMap.lookup k = some y → m.lookup k = some y ∨ ∃ s, y = c.sock s ∧ k = y.opsKey

theorem step_entered {m : BoundedMap SockKey Sock maxEntries} {e : Ev} {st st' : St} (hi : Entered c m st)
    (h : step c e st = some st') :
    Entered c m st' := by
  cases e with
  | sockops s op =>
    cases h
    intro k y hk
    rcases bpfSockmap_cases (c.sock s) ((c.sock s).skops op) st.sockOpsMap with hm | ⟨-, hm⟩
    · exact hi k y (hm ▸ hk)
    · simp only [hm] at hk
      split at hk
      · rename_i hkey
        cases hk
        exact .inr ⟨s, rfl, hkey⟩
      · exact hi k y hk
  | sendmsg s bytes => cases h; exact hi
  | deliver s =>
    simp only [step] at h
    split at h
    · cases h
    · cases h; exact hi

/-- Where the keys were free when the connection opened, its messages are redirected to
    its own sockets. -/
theorem redirect_finds_the_peer {m : BoundedMap SockKey Sock maxEntries} {st : St} {s : Side} {y : Sock}
    (h0 : m.lookup (c.sock s.peer).opsKey = none) (h : Run (step c) anyEvent (init m) st)
    (hp : st.pathOf c s = .redirected y) :
    (∃ t, y = c.sock t) ∧ y.Mirrors (c.sock s) := by
  have hi : Entered c m st := h.inv (fun _ _ hk => .inl hk) fun _ _ _ hi _ hs => step_entered c hi hs
  have hl : st.sockOpsMap.lookup (c.sock s).msgKey = some y := by
    change Redirect.pathOf (.pass, st.sockOpsMap.lookup (c.sock s).msgKey) = _ at hp
    rcases hl : st.sockOpsMap.lookup (c.sock s).msgKey with _ | z
    · rw [hl] at hp; cases hp
    · rw [hl] at hp; cases hp; rfl
  have hmirrors : (c.sock s.peer).Mirrors (c.sock s) := by
    cases s
    · exact c.mirrors
    · exact mirrors_symm c.mirrors
  rcases hi _ _ hl with hm | ⟨t, hy, hk⟩
  · rw [(key_eq_iff _ _).mpr hmirrors, h0] at hm
    cases hm
  · exact ⟨⟨t, hy⟩, (key_eq_iff _ _).mp hk⟩

end Ksight.Tcpaccd.ByteOrder

/-
  Ksight.Netwatcher.Packet — the probes along the path of a TCP packet
  (src/net/netwatcher/bpf/packet.bpf.h; bpf/common.bpf.h: `struct ktime_info`,
  `PACKET_INIT_WITH_COMMON_INFO`).

  Each probe notes its time in the entry of `timestamps` under the packet's tuple; the last
  one of a path submits the differences. The map is an LRU one, `victim` is the entry a new
  one takes the place of. Only the branches for IPv4 are here.

  A probe reads the tuple of a received packet from its headers, that of a sent one from
  the socket until the headers are there. `conn` is what `conns_info` has for the socket.
  Of a probe the proofs use what it leaves in each entry: one layer is noted (`Noted`), or
  none is (`Untimed`).
-/

import Ksight.Netwatcher.NfTime

namespace Ksight.Netwatcher.Packet

open Ksight.Lib

structure KtimeInfo where
  qdiscTime : UInt64
  macTime : UInt64
  ipTime : UInt64
  tranTime : UInt64
  appTime : UInt64
  /-- 0 is NULL. -/
  sk : UInt64
  data : List UInt8

def KtimeInfo.zero : KtimeInfo := ⟨0, 0, 0, 0, 0, 0, []⟩

abbrev Timestamps := BoundedMap PacketTuple KtimeInfo maxPackets

/-- What is submitted. The ring buffer's memory is not cleared: `none` is a field that is
    not written. -/
structure PackT where
  err : Int
  macTime : Option UInt64
  ipTime : Option UInt64
  tranTime : Option UInt64
  seq : UInt32
  ack : UInt32
  data : Option (List UInt8)
  sock : UInt64
  rx : Int
  saddr : UInt32
  daddr : UInt32
  sport : UInt16
  dport : UInt16
  deriving DecidableEq

/-- The command line: `-t` and `-i`. -/
structure PacketOptions where
  layerTime : Bool
  httpInfo : Bool

def maxHttpHeader : Nat := 256

/-- `bpf_probe_read_str` into a buffer of `maxHttpHeader` bytes. -/
def probeReadStr (bytes : List UInt8) : List UInt8 := (bytes.takeWhile (· ≠ 0)).take (maxHttpHeader - 1)

/-- What the probes read of a socket; `dport` is in network order. -/
structure TcpSock where
  rcvSaddr : UInt32
  daddr : UInt32
  num : UInt16
  dport : UInt16
  sndNxt : UInt32
  rcvNxt : UInt32

def sockTuple (sk : TcpSock) (seq ack : UInt32) : PacketTuple :=
  ⟨sk.rcvSaddr, sk.daddr, sk.num, bswap16 sk.dport, seq, ack, tcp⟩

/-- `PACKET_INIT_WITH_COMMON_INFO` and the four addresses. -/
def packetInit (sk : UInt64) (t : PacketTuple) (rx : Int) : PackT :=
  ⟨0, none, none, none, t.seq, t.ack, none, sk, rx, t.saddr, t.daddr, t.sport, t.dport⟩

/-! ## The receive path -/

variable (o : PacketOptions)

def ethTypeTrans (victim : PacketTuple) (h : Headers) (ktime : UInt64) (m : Timestamps) : Timestamps :=
  match m.lookupOrTryInitLru victim (getPktTuple h) .zero with
  | none => m
  | some (_, m) => m.modify (getPktTuple h) fun tinfo => { tinfo with macTime := ktime / 1000 }

def ipRcvCore (h : Headers) (ktime : UInt64) (m : Timestamps) : Timestamps :=
  if !o.layerTime then m
  else m.modify (getPktTuple h) fun tinfo => { tinfo with ipTime := ktime / 1000 }

def tcpV4Rcv (h : Headers) (ktime : UInt64) (m : Timestamps) : Timestamps :=
  if !o.layerTime then m
  else m.modify (getPktTuple h) fun tinfo => { tinfo with tranTime := ktime / 1000 }

def tcpV4DoRcv (conn : Option UInt64) (h : Headers) (m : Timestamps) : Timestamps :=
  match conn with
  | none => m
  | some sock => m.modify (getPktTuple h) fun tinfo => { tinfo with sk := sock }

/-- `payload` is what follows the TCP header. -/
def skbCopyDatagramIter (h : Headers) (ktime : UInt64) (payload : List UInt8) (reserved : Bool)
    (m : Timestamps) : Option PackT × Timestamps :=
  match m.lookup (getPktTuple h) with
  | none => (none, m)
  | some tinfo =>
    let tinfo := { tinfo with appTime := ktime / 1000 }
    let m := m.modify (getPktTuple h) fun _ => tinfo
    if tinfo.sk = 0 then (none, m)
    else if !reserved then (none, m)
    else
      let packet := packetInit tinfo.sk (getPktTuple h) 1
      let packet :=
        if o.layerTime then
          { packet with
            macTime := some (tinfo.ipTime - tinfo.macTime)
            ipTime := some (tinfo.tranTime - tinfo.ipTime)
            tranTime := some (tinfo.appTime - tinfo.tranTime) }
        else packet
      (some (if o.httpInfo then { packet with data := some (probeReadStr payload) } else packet), m)

/-! ## The transmit path -/

/-- With `httpInfo` the entry is looked up once more, and found. -/
def tcpSendmsg (victim : PacketTuple) (conn : Option UInt64) (sk : TcpSock) (ktime : UInt64)
    (userData : List UInt8) (m : Timestamps) : Timestamps :=
  match conn with
  | none => m
  | some sock =>
    match m.lookupOrTryInitLru victim (sockTuple sk sk.sndNxt sk.rcvNxt) .zero with
    | none => m
    | some (_, m) => m.modify (sockTuple sk sk.sndNxt sk.rcvNxt) fun tinfo =>
      { tinfo with
        tranTime := ktime / 1000
        sk := sock
        data := if o.httpInfo then probeReadStr userData else tinfo.data }

/-- `seq` and `ack` are those of the header, in network order. -/
def ipQueueXmit (sk : TcpSock) (seq ack : UInt32) (ktime : UInt64) (m : Timestamps) : Timestamps :=
  if !o.layerTime then m
  else m.modify (sockTuple sk (bswap32 seq) (bswap32 ack)) fun tinfo => { tinfo with ipTime := ktime / 1000 }

def devQueueXmit (h : Headers) (ktime : UInt64) (m : Timestamps) : Timestamps :=
  if !o.layerTime then m
  else m.modify (getPktTuple h) fun tinfo => { tinfo with macTime := ktime / 1000 }

def devHardStartXmit (h : Headers) (ktime : UInt64) (reserved : Bool) (m : Timestamps) :
    Option PackT × Timestamps :=
  match m.lookup (getPktTuple h) with
  | none => (none, m)
  | some tinfo =>
    let tinfo := { tinfo with qdiscTime := ktime / 1000 }
    let m := m.modify (getPktTuple h) fun _ => tinfo
    if tinfo.sk = 0 then (none, m)
    else if !reserved then (none, m)
    else
      let packet := packetInit tinfo.sk (getPktTuple h) 0
      let packet :=
        if o.layerTime then
          { packet with
            tranTime := some (tinfo.ipTime - tinfo.tranTime)
            ipTime := some (tinfo.macTime - tinfo.ipTime)
            macTime := some (tinfo.qdiscTime - tinfo.macTime) }
        else packet
      (some (if o.httpInfo then { packet with data := some (probeReadStr tinfo.data) } else packet), m)

/-- The microseconds of a later clock reading are no fewer. -/
theorem div_mono {a b : UInt64} (h : a ≤ b) : a / 1000 ≤ b / 1000 := by
  rw [UInt64.le_iff_toNat_le] at h ⊢
  simp only [UInt64.toNat_div]
  exact Nat.div_le_div_right h

/-! ## What a probe leaves in the entries -/

/-- The layers whose times are noted. -/
inductive Layer where
  | mac
  | ip
  | tran
  deriving DecidableEq

def KtimeInfo.at (i : KtimeInfo) : Layer → UInt64
  | .mac => i.macTime
  | .ip => i.ipTime
  | .tran => i.tranTime

def PackT.at (p : PackT) : Layer → Option UInt64
  | .mac => p.macTime
  | .ip => p.ipTime
  | .tran => p.tranTime

/-- The entry under `t`, if there is one, has `now` as its time of layer `l`, and the other
    times it had before. No other entry is new. -/
structure Noted (t : PacketTuple) (l : Layer) (now : UInt64) (m m' : Timestamps) : Prop where
  self : ∀ i' ∈ m'.lookup t, i'.at l = now ∧ ∀ i ∈ m.lookup t, ∀ k, k ≠ l → i'.at k = i.at k
  others : ∀ t', t' ≠ t → ∀ i' ∈ m'.lookup t', i' ∈ m.lookup t'

/-- Every entry has the times it had before. -/
def Untimed (m m' : Timestamps) : Prop :=
  ∀ t, ∀ i' ∈ m'.lookup t, ∃ i ∈ m.lookup t, ∀ l, i'.at l = i.at l

theorem Untimed.refl (m : Timestamps) : Untimed m m := fun _ i' hi' => ⟨i', hi', fun _ => rfl⟩

theorem modify_noted {f : KtimeInfo → KtimeInfo} {l : Layer} {now : UInt64}
    (hf : ∀ i k, (f i).at k = if k = l then now else i.at k) (t : PacketTuple) (m : Timestamps) :
    Noted t l now m (m.modify t f) := by
  constructor
  · intro i' hi'
    rw [BoundedMap.lookup_modify_self] at hi'
    obtain ⟨i, hi, rfl⟩ := Option.map_eq_some_iff.mp hi'
    refine ⟨by rw [hf, if_pos rfl], fun j hj k hk => ?_⟩
    rw [Option.mem_unique hj hi, hf, if_neg hk]
  · intro t' ht i' hi'
    rwa [BoundedMap.lookup_modify_ne _ _ ht] at hi'

/-- An entry that was made for it is noted like one that was there. -/
theorem Noted.of_init {t victim : PacketTuple} {l : Layer} {now : UInt64} {m m' m'' : Timestamps}
    {init i : KtimeInfo} (hi : m.lookupOrTryInitLru victim t init = some (i, m')) (h : Noted t l now m' m'') :
    Noted t l now m m'' := by
  obtain ⟨hself, hval, hne⟩ := BoundedMap.lookupOrTryInitLru_some hi
  constructor
  · intro i' hi'
    obtain ⟨h1, h2⟩ := h.self i' hi'
    refine ⟨h1, fun j hj k hk => ?_⟩
    have hij : i = j := by rw [hval, Option.mem_def.mp hj]; rfl
    exact hij ▸ h2 i hself k hk
  · intro t' ht i' hi'
    exact hne t' ht i' (h.others t' ht i' hi')

/-- Where no entry could be made there is none to note. -/
theorem noted_of_none {t victim : PacketTuple} {l : Layer} {now : UInt64} {m : Timestamps} {init : KtimeInfo}
    (h : m.lookupOrTryInitLru victim t init = none) : Noted t l now m m := by
  constructor
  · intro i hi
    simp only [BoundedMap.lookupOrTryInitLru, Option.mem_def.mp hi] at h
    cases h
  · exact fun _ _ _ hi => hi

theorem modify_untimed {f : KtimeInfo → KtimeInfo} {t : PacketTuple} {m : Timestamps}
    (h : ∀ i ∈ m.lookup t, ∀ l, (f i).at l = i.at l) : Untimed m (m.modify t f) := by
  intro t' i' hi'
  by_cases e : t' = t
  · subst e
    rw [BoundedMap.lookup_modify_self] at hi'
    obtain ⟨i, hi, rfl⟩ := Option.map_eq_some_iff.mp hi'
    exact ⟨i, hi, h i hi⟩
  · rw [BoundedMap.lookup_modify_ne _ _ e] at hi'
    exact ⟨i', hi', fun _ => rfl⟩

theorem ethTypeTrans_noted (victim : PacketTuple) (h : Headers) (ktime : UInt64) (m : Timestamps) :
    Noted (getPktTuple h) .mac (ktime / 1000) m (ethTypeTrans victim h ktime m) := by
  unfold ethTypeTrans
  split
  · rename_i hn
    exact noted_of_none hn
  · rename_i hs
    refine .of_init hs (modify_noted ?_ _ _)
    intro i k
    cases k <;> rfl

variable {o}

theorem ipRcvCore_noted (ho : o.layerTime = true) (h : Headers) (ktime : UInt64) (m : Timestamps) :
    Noted (getPktTuple h) .ip (ktime / 1000) m (ipRcvCore o h ktime m) := by
  simp only [ipRcvCore, ho, Bool.not_true, Bool.false_eq_true, if_false]
  refine modify_noted ?_ _ _
  intro i k
  cases k <;> rfl

theorem tcpV4Rcv_noted (ho : o.layerTime = true) (h : Headers) (ktime : UInt64) (m : Timestamps) :
    Noted (getPktTuple h) .tran (ktime / 1000) m (tcpV4Rcv o h ktime m) := by
  simp only [tcpV4Rcv, ho, Bool.not_true, Bool.false_eq_true, if_false]
  refine modify_noted ?_ _ _
  intro i k
  cases k <;> rfl

theorem tcpV4DoRcv_untimed (conn : Option UInt64) (h : Headers) (m : Timestamps) :
    Untimed m (tcpV4DoRcv conn h m) := by
  cases conn with
  | none => exact .refl m
  | some sock => exact modify_untimed fun i _ l => by cases l <;> rfl

variable (o) in
theorem tcpSendmsg_noted (victim : PacketTuple) (sock : UInt64) (sk : TcpSock) (ktime : UInt64)
    (userData : List UInt8) (m : Timestamps) :
    Noted (sockTuple sk sk.sndNxt sk.rcvNxt) .tran (ktime / 1000) m
      (tcpSendmsg o victim (some sock) sk ktime userData m) := by
  unfold tcpSendmsg
  simp only
  split
  · rename_i hn
    exact noted_of_none hn
  · rename_i hs
    refine .of_init hs (modify_noted ?_ _ _)
    intro i k
    cases k <;> rfl

theorem ipQueueXmit_noted (ho : o.layerTime = true) (sk : TcpSock) (seq ack : UInt32) (ktime : UInt64)
    (m : Timestamps) :
    Noted (sockTuple sk (bswap32 seq) (bswap32 ack)) .ip (ktime / 1000) m
      (ipQueueXmit o sk seq ack ktime m) := by
  simp only [ipQueueXmit, ho, Bool.not_true, Bool.false_eq_true, if_false]
  refine modify_noted ?_ _ _
  intro i k
  cases k <;> rfl

theorem devQueueXmit_noted (ho : o.layerTime = true) (h : Headers) (ktime : UInt64) (m : Timestamps) :
    Noted (getPktTuple h) .mac (ktime / 1000) m (devQueueXmit o h ktime m) := by
  simp only [devQueueXmit, ho, Bool.not_true, Bool.false_eq_true, if_false]
  refine modify_noted ?_ _ _
  intro i k
  cases k <;> rfl

/-! ## What is submitted -/

inductive Dir where
  | rx
  | tx
  deriving DecidableEq

/-- The layers a packet passes before and after `ip`. -/
def Dir.first : Dir → Layer
  | .rx => .mac
  | .tx => .tran

def Dir.last : Dir → Layer
  | .rx => .tran
  | .tx => .mac

/-- The three differences, of the times `i` of an entry and the time of the last probe. -/
def Differences (d : Dir) (i : KtimeInfo) (now : UInt64) (packet : PackT) : Prop :=
  packet.at d.first = some (i.at .ip - i.at d.first) ∧ packet.at .ip = some (i.at d.last - i.at .ip) ∧
    packet.at d.last = some (now - i.at d.last)

theorem skbCopyDatagramIter_spec (ho : o.layerTime = true) (h : Headers) (ktime : UInt64)
    (payload : List UInt8) (reserved : Bool) (m : Timestamps) :
    Untimed m (skbCopyDatagramIter o h ktime payload reserved m).2 ∧
      ∀ packet ∈ (skbCopyDatagramIter o h ktime payload reserved m).1,
        reserved = true ∧ ∃ i ∈ m.lookup (getPktTuple h), i.sk ≠ 0 ∧ Differences .rx i (ktime / 1000) packet := by
  unfold skbCopyDatagramIter
  rcases hl : m.lookup (getPktTuple h) with _ | tinfo
  · exact ⟨.refl m, by simp⟩
  · have hu : Untimed m (m.modify (getPktTuple h) fun _ => { tinfo with appTime := ktime / 1000 }) := by
      refine modify_untimed fun i hi l => ?_
      rw [hl] at hi
      cases hi
      cases l <;> rfl
    simp only [ho, if_true]
    split
    · exact ⟨hu, by simp⟩
    · rename_i hsk
      split
      · exact ⟨hu, by simp⟩
      · rename_i hres
        refine ⟨hu, fun packet hp => ⟨by simpa using hres, tinfo, rfl, hsk, ?_⟩⟩
        cases hp
        split <;> exact ⟨rfl, rfl, rfl⟩

theorem devHardStartXmit_spec (ho : o.layerTime = true) (h : Headers) (ktime : UInt64) (reserved : Bool)
    (m : Timestamps) :
    Untimed m (devHardStartXmit o h ktime reserved m).2 ∧
      ∀ packet ∈ (devHardStartXmit o h ktime reserved m).1,
        reserved = true ∧ ∃ i ∈ m.lookup (getPktTuple h), i.sk ≠ 0 ∧ Differences .tx i (ktime / 1000) packet := by
  unfold devHardStartXmit
  rcases hl : m.lookup (getPktTuple h) with _ | tinfo
  · exact ⟨.refl m, by simp⟩
  · have hu : Untimed m (m.modify (getPktTuple h) fun _ => { tinfo with qdiscTime := ktime / 1000 }) := by
      refine modify_untimed fun i hi l => ?_
      rw [hl] at hi
      cases hi
      cases l <;> rfl
    simp only [ho, if_true]
    split
    · exact ⟨hu, by simp⟩
    · rename_i hsk
      split
      · exact ⟨hu, by simp⟩
      · rename_i hres
        refine ⟨hu, fun packet hp => ⟨by simpa using hres, tinfo, rfl, hsk, ?_⟩⟩
        cases hp
        split <;> exact ⟨rfl, rfl, rfl⟩

end Ksight.Netwatcher.Packet

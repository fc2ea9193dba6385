/-
  Ksight.Iotracing.Totals — the bytes and delays of each source of IO
  (src/fs/iotracing/bpf/iotracing.bpf.c).

  Requests are issued and done and files are read, written and faulted in, in any order, by
  any threads. A request may have been issued before tracing began. What is due for a request
  that is done is its length and its two delays, to the file or process that it was issued
  for (`Issued.info`); nothing is due for one that is not traced.

  The law (`Right`): the counters of each entry of `io_source_map` are the sums, modulo 2^64,
  of what is due to its key.

  - `sources_right_iff`: the law holds all along a sequence of events if and only if each of
    them finds room for what is due, and each request that is done finds under its device
    and sector a start that charges the same (`Charged`).
  - A request that is issued where another one is in flight takes its place: the first of them
    that is done is charged to the other's process (`same_sector_is_mixed_up`).
-/

import Mathlib.Algebra.Group.Pi.Basic
import Mathlib.Data.UInt
import Ksight.Iotracing.Sources
import Ksight.Lib.Charges
import Ksight.Lib.Run

namespace Ksight.Iotracing

open Ksight.Lib

/-- The counters of an entry. -/
inductive Counter where
  | fsWrite
  | fsRead
  | blockWrite
  | blockRead
  | q2c
  | d2c
  | cnt
  deriving DecidableEq

def Counter.all : List Counter := [.fsWrite, .fsRead, .blockWrite, .blockRead, .q2c, .d2c, .cnt]

theorem Counter.mem_all (c : Counter) : c ∈ Counter.all := by cases c <;> simp [Counter.all]

abbrev Tally := Counter → UInt64

instance : DecidableEq Tally := fun f g =>
  decidable_of_iff (∀ c ∈ Counter.all, f c = g c) ⟨fun h => funext fun c => h c c.mem_all, fun h _ _ => congrFun h _⟩

def IoData.tally (entry : IoData) : Tally
  | .fsWrite => entry.fsWriteBytes
  | .fsRead => entry.fsReadBytes
  | .blockWrite => entry.blockWriteBytes
  | .blockRead => entry.blockReadBytes
  | .q2c => entry.latency.sumQ2c
  | .d2c => entry.latency.sumD2c
  | .cnt => entry.latency.cnt

def Maps.tally (m : Maps) (key : IoKey) : Tally := ((m.ioSourceMap.lookup key).map IoData.tally).getD 0

/-- What a request that is done adds to the counters. -/
def Request.amount (req : Request) (dataLen now : UInt64) (bytes : Counter) : Tally
  | .q2c => now - req.startTimeNs
  | .d2c => now - req.ioStartTimeNs
  | .cnt => 1
  | c => if c = bytes then dataLen else 0

def Request.charge (req : Request) (now : UInt64) (info : IoStartInfo) : Option (IoKey × Tally) :=
  if isWriteRequest req.cmdFlags then some (info.ioKey, req.amount info.dataLen now .blockWrite)
  else if req.cmdFlags &&& reqOpMask = reqOpRead then some (info.ioKey, req.amount info.dataLen now .blockRead)
  else none

def File.charge (o : Options) (file : File) (bytes : Counter) (count : UInt64) : Option (IoKey × Tally) :=
  if o.shouldProcessDevice file.ioKey.dev ∧ count ≠ 0 then some (file.ioKey, Pi.single bytes count) else none

/-! ## The system -/

abbrev ReqId := Nat

structure Issued where
  req : Request
  /-- Who issued the request for what; `none` if it is not traced. -/
  info : Option IoStartInfo

structure St where
  maps : Maps
  inflight : ReqId → Option Issued
  /-- Ghost: what has been due so far. -/
  charges : List (Option (IoKey × Tally))

inductive Ev where
  | issue (id : ReqId) (req : Request) (cur : Current)
  | done (id : ReqId) (now : UInt64)
  | readWrite (file : File) (cur : Current) (write : Bool) (count : UInt64) (kiFlags : UInt32)
  | mkwrite (file : File) (cur : Current)
  | fault (file : File) (cur : Current)

/-- The requests in flight when tracing begins are not traced. -/
def init (inflight : ReqId → Option Request) : St :=
  ⟨.empty, fun id => (inflight id).map (⟨·, none⟩), []⟩

variable (o : Options)

def Request.traced (req : Request) (cur : Current) : Option IoStartInfo :=
  if req.cmdFlags &&& reqMeta ≠ 0 then none
  else req.hashKey.bind fun key => if o.shouldProcessDevice key.dev then some (req.startInfo key cur) else none

def Issued.due (i : Issued) (now : UInt64) : Option (IoKey × Tally) := i.info.bind (i.req.charge now)

def bytesOf (write : Bool) : Counter := if write then .fsWrite else .fsRead

/-- What an event is due to be charged. -/
def due (s : St) : Ev → Option (IoKey × Tally)
  | .issue _ _ _ => none
  | .done id now => (s.inflight id).bind (·.due now)
  | .readWrite file _ write count _ => file.charge o (bytesOf write) count
  | .mkwrite file _ => file.charge o .fsWrite pageSize
  | .fault file _ => file.charge o .fsRead pageSize

def step (e : Ev) (s : St) : Option St :=
  match e with
  | .issue id req cur =>
    match s.inflight id with
    | some _ => none
    | none => some { s with
        maps := rqQosIssue o req cur s.maps
        inflight := Function.update s.inflight id (some ⟨req, req.traced o cur⟩) }
  | .done id now =>
    match s.inflight id with
    | none => none
    | some i => some {
        maps := rqQosDone o i.req now s.maps
        inflight := Function.update s.inflight id none
        charges := due o s e :: s.charges }
  | .readWrite file cur write count kiFlags => some { s with
      maps := fileReadWrite o file cur write count kiFlags s.maps, charges := due o s e :: s.charges }
  | .mkwrite file cur => some { s with
      maps := filemapPageMkwrite o file cur s.maps, charges := due o s e :: s.charges }
  | .fault file cur => some { s with
      maps := filemapFault o file cur s.maps, charges := due o s e :: s.charges }

/-- The law. -/
def Right (s : St) : Prop := ∀ key, s.maps.tally key = totalOf s.charges key

/-- The start that a request finds when it is done. -/
def Maps.found (m : Maps) (req : Request) : Option IoStartInfo :=
  req.hashKey.bind fun key => if o.shouldProcessDevice key.dev then m.startInfoMap.lookup key else none

/-- The part of a charge that the map has room for. -/
def Maps.kept (m : Maps) (charge : Option (IoKey × Tally)) : Option (IoKey × Tally) :=
  charge.filter fun x => m.ioSourceMap.HasRoom x.1

/-- The condition: there is room for what is due, and a request finds a start that is charged like
    its own. -/
def Charged (e : Ev) (s : St) : Prop :=
  match e with
  | .issue _ _ _ => True
  | .done id now =>
    match s.inflight id with
    | none => True
    | some i => s.maps.kept ((s.maps.found o i.req).bind (i.req.charge now)) = i.due now
  | e => s.maps.kept (due o s e) = due o s e

instance (e : Ev) (s : St) : Decidable (Charged o e s) := by
  unfold Charged
  cases e <;> dsimp only <;> first | infer_instance | (split <;> infer_instance)

/-! ## What the probes add -/

section
variable {o} {m : Maps} {key : IoKey}

theorem IoData.tally_zero : IoData.zero.tally = 0 := by
  funext c
  cases c <;> rfl

theorem tally_label (info : IoStartInfo) (data : IoData) : (info.label data).tally = data.tally := by
  funext c
  cases c <;> rfl

theorem tally_adopt (file : File) (cur : Current) (entry : IoData) : (file.adopt cur entry).tally = entry.tally := by
  unfold File.adopt
  split
  · funext c
    cases c <;> rfl
  · rfl

theorem tally_getD (m : Maps) (key : IoKey) : ((m.ioSourceMap.lookup key).getD .zero).tally = m.tally key := by
  rw [Maps.tally]
  cases m.ioSourceMap.lookup key with
  | none => exact IoData.tally_zero
  | some entry => rfl

@[simp] theorem share_kept (m : Maps) (key : IoKey) (amount : Tally) (j : IoKey) :
    share (m.kept (some (key, amount))) j = if j = key ∧ m.ioSourceMap.HasRoom key then amount else 0 := by
  rw [Maps.kept, Option.filter_some]
  by_cases h : m.ioSourceMap.HasRoom key
  · simp [h, share]
  · simp [h]

/-- An entry that is written with an amount more than it had. -/
theorem tally_update {entry : IoData} {amount : Tally} (h : entry.tally = m.tally key + amount)
    (startInfoMap : BoundedMap HashKey IoStartInfo 4096) (j : IoKey) :
    (⟨(m.ioSourceMap.update key entry).getD m.ioSourceMap, startInfoMap⟩ : Maps).tally j =
      m.tally j + share (m.kept (some (key, amount))) j := by
  rw [share_kept, Maps.tally, BoundedMap.lookup_getD_update]
  by_cases hj : j = key ∧ m.ioSourceMap.HasRoom key
  · rw [if_pos hj, if_pos hj, hj.1]
    exact h
  · rw [if_neg hj, if_neg hj, add_zero]
    rfl

theorem account_none {req : Request} {now : UInt64} {info : IoStartInfo} (h : req.charge now info = none)
    (entry : IoData) : account req info now entry = none := by
  unfold Request.charge at h
  unfold account
  split at h
  · cases h
  · rename_i hw
    rw [if_neg hw]
    split at h
    · cases h
    · rename_i hr
      exact if_neg hr

theorem account_some {req : Request} {now : UInt64} {info : IoStartInfo} {x : IoKey × Tally}
    (h : req.charge now info = some x) (entry : IoData) :
    ∃ data, account req info now entry = some data ∧ data.tally = entry.tally + x.2 := by
  unfold Request.charge at h
  unfold account
  split at h
  · rename_i hw
    cases h
    refine ⟨_, if_pos hw, ?_⟩
    funext c
    cases c <;> simp [IoData.tally, Request.amount]
  · rename_i hw
    rw [if_neg hw]
    split at h
    · rename_i hr
      cases h
      refine ⟨_, if_pos hr, ?_⟩
      funext c
      cases c <;> simp [IoData.tally, Request.amount]
    · cases h

theorem charge_key {req : Request} {now : UInt64} {info : IoStartInfo} {x : IoKey × Tally}
    (h : req.charge now info = some x) : x.1 = info.ioKey := by
  unfold Request.charge at h
  split at h
  · cases h; rfl
  · split at h
    · cases h; rfl
    · cases h

theorem charge_ne_zero {req : Request} {now : UInt64} {info : IoStartInfo} :
    ∀ x ∈ req.charge now info, x.2 ≠ 0 := by
  intro x hx hzero
  have hcnt : x.2 .cnt = 1 := by
    unfold Request.charge at hx
    split at hx
    · cases hx; rfl
    · split at hx
      · cases hx; rfl
      · cases hx
  rw [hzero] at hcnt
  exact absurd hcnt (by decide)

/-- A request that is done adds what its start is charged. -/
theorem tally_done (req : Request) (now : UInt64) (m : Maps) (j : IoKey) :
    (rqQosDone o req now m).tally j = m.tally j + share (m.kept ((m.found o req).bind (req.charge now))) j := by
  have hnone : m.tally j = m.tally j + share (m.kept none) j := (add_zero _).symm
  unfold rqQosDone Maps.found
  rcases req.hashKey with _ | infoKey
  · exact hnone
  simp only [Option.bind_some]
  by_cases hdev : o.shouldProcessDevice infoKey.dev
  swap
  · rw [if_neg hdev, if_neg hdev]
    exact hnone
  rw [if_pos hdev, if_pos hdev]
  rcases m.startInfoMap.lookup infoKey with _ | info
  · exact hnone
  have hbase := tally_getD m info.ioKey
  simp only [Option.bind_some]
  rcases hc : req.charge now info with _ | x
  · rcases m.ioSourceMap.lookup info.ioKey with _ | entry
    · simp only [account_none hc]
      exact hnone
    · simp only [account_none hc]
      exact hnone
  have hx : x = (info.ioKey, x.2) := by rw [← charge_key hc]
  rcases hl : m.ioSourceMap.lookup info.ioKey with _ | entry
  · rw [hl, Option.getD_none] at hbase
    obtain ⟨data, hd, htally⟩ := account_some hc .zero
    simp only [hd]
    rw [hx]
    refine tally_update ?_ _ j
    rw [tally_label, htally, hbase]
  · rw [hl, Option.getD_some] at hbase
    obtain ⟨data, hd, htally⟩ := account_some hc entry
    simp only [hd]
    rw [hx]
    refine tally_update ?_ _ j
    rw [htally, hbase]

/-- A file access adds its bytes. -/
theorem tally_fsAccess {file : File} {cur : Current} {count : IoData → IoData} {bytes : Counter} {n : UInt64}
    (h : ∀ entry, (count entry).tally = entry.tally + Pi.single bytes n) (m : Maps) (j : IoKey) :
    (fsAccess o file cur count m).tally j = m.tally j + share (m.kept (file.charge o bytes n)) j := by
  unfold fsAccess File.charge
  by_cases hdev : o.shouldProcessDevice file.ioKey.dev
  swap
  · rw [if_neg hdev, if_neg fun hd => hdev hd.1]
    exact (add_zero _).symm
  have hentry : (count (file.adopt cur ((m.ioSourceMap.lookup file.ioKey).getD .zero))).tally =
      m.tally file.ioKey + Pi.single bytes n := by
    rw [h, tally_adopt, tally_getD]
  rw [if_pos hdev, tally_update hentry]
  by_cases hn : n = 0
  · subst hn
    rw [if_neg fun hd => hd.2 rfl, Pi.single_zero, share_kept, ite_self]
    rfl
  · rw [if_pos ⟨hdev, hn⟩]

theorem tally_write (entry : IoData) (n : UInt64) :
    (entry.addWrite n).tally = entry.tally + Pi.single .fsWrite n := by
  funext c
  cases c <;> simp [IoData.tally, IoData.addWrite]

theorem tally_read (entry : IoData) (n : UInt64) :
    (entry.addRead n).tally = entry.tally + Pi.single .fsRead n := by
  funext c
  cases c <;> simp [IoData.tally, IoData.addRead]

theorem tally_flag (entry : IoData) (flag : UInt32) : ({ entry with flag := flag } : IoData).tally = entry.tally := by
  funext c
  cases c <;> rfl

theorem tally_issue (req : Request) (cur : Current) (m : Maps) (j : IoKey) :
    (rqQosIssue o req cur m).tally j = m.tally j := by
  unfold rqQosIssue
  split
  · rfl
  · split
    · rfl
    · split <;> rfl

theorem kept_ne_zero {charge : Option (IoKey × Tally)} (h : ∀ x ∈ charge, x.2 ≠ 0) :
    ∀ x ∈ m.kept charge, x.2 ≠ 0 := fun x hx => h x (Option.mem_filter_iff.mp hx).1

theorem file_charge_ne_zero {file : File} {bytes : Counter} {n : UInt64} :
    ∀ x ∈ file.charge o bytes n, x.2 ≠ 0 := by
  intro x hx
  unfold File.charge at hx
  split at hx
  · rename_i h
    cases hx
    exact Pi.single_ne_zero_iff.mpr h.2
  · cases hx

end

/-! ## The law -/

variable {o}

theorem right_fsAccess {s : St} (h : Right s) (file : File) (cur : Current) {count : IoData → IoData}
    {bytes : Counter} {n : UInt64} (hcount : ∀ entry, (count entry).tally = entry.tally + Pi.single bytes n) :
    (∀ j, (fsAccess o file cur count s.maps).tally j = totalOf (file.charge o bytes n :: s.charges) j) ↔
      s.maps.kept (file.charge o bytes n) = file.charge o bytes n :=
  right_cons_iff h (tally_fsAccess hcount s.maps) (kept_ne_zero file_charge_ne_zero) file_charge_ne_zero

/-- A step keeps the law if and only if it meets the condition. -/
theorem right_step {e : Ev} {s t : St} (h : Right s) (hs : step o e s = some t) : Right t ↔ Charged o e s := by
  cases e with
  | issue id req cur =>
    simp only [step] at hs
    split at hs
    · cases hs
    · cases hs
      exact iff_of_true (fun j => (tally_issue req cur s.maps j).trans (h j)) trivial
  | done id now =>
    simp only [step] at hs
    split at hs
    · cases hs
    · rename_i i hi
      cases hs
      have hdue : due o s (.done id now) = i.due now := by rw [due, hi, Option.bind_some]
      unfold Right
      simp only [Charged, hi, hdue]
      refine right_cons_iff h (tally_done i.req now s.maps) (kept_ne_zero ?_) ?_
      · rintro x hx
        obtain ⟨info, -, hc⟩ := Option.bind_eq_some_iff.mp hx
        exact charge_ne_zero x hc
      · rintro x hx
        obtain ⟨info, -, hc⟩ := Option.bind_eq_some_iff.mp hx
        exact charge_ne_zero x hc
  | readWrite file cur write count kiFlags =>
    cases hs
    refine right_fsAccess h file cur fun entry => ?_
    rw [tally_flag]
    cases write
    · exact tally_read entry count
    · exact tally_write entry count
  | mkwrite file cur =>
    cases hs
    have hright := right_fsAccess (o := o) h file cur (tally_write · pageSize)
    exact hright
  | fault file cur =>
    cases hs
    have hright := right_fsAccess (o := o) h file cur (tally_read · pageSize)
    exact hright

theorem right_init (inflight : ReqId → Option Request) : Right (init inflight) := fun _ => rfl

/-- The counters are right all along a sequence of events if and only if each of them meets the
    condition. -/
theorem sources_right_iff {inflight : ReqId → Option Request} {s : St} {es : List Ev}
    (h : exec (step o) es (init inflight) = some s) :
    Along (step o) Right es (init inflight) ↔ execIf (step o) (Charged o) es (init inflight) = some s :=
  along_iff_of_step (I := fun _ => True) (fun _ _ _ _ _ => trivial) (fun _ _ _ _ hr hs => right_step hr hs) trivial
    (right_init inflight) h

/-! ## Two requests -/

/-- No filter. -/
def everyDevice : Options := ⟨.replicate 16 0, 0⟩

/-- A read without a file. -/
def directRead (sector : UInt64) (dataLen : UInt32) : Request where
  devn := some (8, 0)
  partno := 1
  sector := sector
  cmdFlags := reqOpRead
  dataLen := dataLen
  startTimeNs := 0
  ioStartTimeNs := 0
  inode := 0
  sDev := 0
  blkg := 0

def processOf (pid : UInt64) : Current := ⟨pid <<< 32, []⟩

def idle (_ : ReqId) : Option Request := none

/-- Processes 1 and 2 read different sectors. -/
def apart : List Ev :=
  [.issue 0 (directRead 8 512) (processOf 1), .issue 1 (directRead 16 4096) (processOf 2), .done 0 10, .done 1 20]

/-- Both read the same one. -/
def together : List Ev :=
  [.issue 0 (directRead 8 512) (processOf 1), .issue 1 (directRead 8 4096) (processOf 2), .done 0 10]

theorem apart_are_right : ∃ s,
    exec (step everyDevice) apart (init idle) = some s ∧ Along (step everyDevice) Right apart (init idle) := by
  obtain ⟨s, hs, hok, -⟩ := execIf_any (step everyDevice) (Charged everyDevice) (init idle) apart (fun _ => true)
    (by decide +kernel)
  exact ⟨s, hs, (sources_right_iff hs).mpr hok⟩

/-- The first one that is done is charged to process 2. -/
theorem same_sector_is_mixed_up : ∃ s, Run (step everyDevice) anyEvent (init idle) s ∧
    s.maps.tally ⟨2, 0x800001, 0⟩ .blockRead = 4096 ∧ ¬ Right s := by
  obtain ⟨s, hr, hs⟩ := run_of_exec_any (step everyDevice) (init idle) together
    (fun s => s.maps.tally ⟨2, 0x800001, 0⟩ .blockRead == 4096 && totalOf s.charges ⟨2, 0x800001, 0⟩ .blockRead == 0)
    (by decide +kernel)
  simp only [Bool.and_eq_true, beq_iff_eq] at hs
  refine ⟨s, hr, hs.1, fun h => ?_⟩
  have hright := congrFun (h ⟨2, 0x800001, 0⟩) .blockRead
  rw [hs.1, hs.2] at hright
  exact absurd hright (by decide)

end Ksight.Iotracing

/-
  Ksight.Iotracing.Owners — whose an entry of `io_source_map` is
  (src/fs/iotracing/bpf/iotracing.bpf.c: `init_io_data` and the probes that call it).

  An entry has the thread, the command and the path of an access to its file once its `tgid`
  is not 0. A block request may have made it before, with the process that issued the request.

  The law (`first_access_owns`): the owner of an entry is that of the first access to the file
  and stays so, whatever requests come before, between or after, and the device and inode in
  it are those of its key. The condition is that each access finds room (`Room`). The path goes
  from the file upwards and repeats the root where that is near (`filepathOf_root`).
-/

import Mathlib.Data.List.Basic
import Ksight.Iotracing.Totals

namespace Ksight.Iotracing

open Ksight.Lib

structure Owner where
  pid : UInt32
  tgid : UInt32
  comm : Name
  filepath : List Name
  deriving DecidableEq

def IoData.owner (entry : IoData) : Option Owner :=
  if entry.tgid = 0 then none else some ⟨entry.pid, entry.tgid, entry.comm, entry.filepath⟩

def Maps.owner (m : Maps) (key : IoKey) : Option Owner := (m.ioSourceMap.lookup key).bind IoData.owner

variable (o : Options)

/-- What an access by a thread would put into its entry. -/
def File.owner (file : File) (cur : Current) (key : IoKey) : Option Owner :=
  if file.ioKey = key ∧ o.shouldProcessDevice key.dev ∧ cur.pidTgid.toUInt32 ≠ 0 then
    some ⟨(cur.pidTgid >>> 32).toUInt32, cur.pidTgid.toUInt32, cur.comm, filepathOf filepathMaxDepth file.dentry⟩
  else none

def Ev.owner (key : IoKey) : Ev → Option Owner
  | .issue _ _ _ => none
  | .done _ _ => none
  | .readWrite file cur _ _ _ => file.owner o cur key
  | .mkwrite file cur => file.owner o cur key
  | .fault file cur => file.owner o cur key

/-- The owner that the first access of a list gives to a key. -/
def firstOwner (key : IoKey) (es : List Ev) : Option Owner := es.findSome? (Ev.owner o key)

/-- The condition. -/
def Room : Ev → St → Prop
  | .issue _ _ _, _ => True
  | .done _ _, _ => True
  | .readWrite file _ _ _ _, s => s.maps.ioSourceMap.HasRoom file.ioKey
  | .mkwrite file _, s => s.maps.ioSourceMap.HasRoom file.ioKey
  | .fault file _, s => s.maps.ioSourceMap.HasRoom file.ioKey

instance : ∀ (e : Ev) (s : St), Decidable (Room e s)
  | .issue .., _ => .isTrue trivial
  | .done .., _ => .isTrue trivial
  | .readWrite file .., s => inferInstanceAs (Decidable (s.maps.ioSourceMap.HasRoom file.ioKey))
  | .mkwrite file _, s => inferInstanceAs (Decidable (s.maps.ioSourceMap.HasRoom file.ioKey))
  | .fault file _, s => inferInstanceAs (Decidable (s.maps.ioSourceMap.HasRoom file.ioKey))

/-- Each entry has the device and the inode of its key. -/
def Labelled (m : Maps) : Prop :=
  ∀ key entry, m.ioSourceMap.lookup key = some entry → entry.dev = key.dev ∧ entry.inode = key.inode

/-! ## The probes -/

section
variable {o} {m : Maps}

theorem account_owner {req : Request} {info : IoStartInfo} {now : UInt64} {entry data : IoData}
    (h : account req info now entry = some data) :
    data.owner = entry.owner ∧ data.dev = entry.dev ∧ data.inode = entry.inode := by
  unfold account at h
  split at h
  · cases h
    exact ⟨rfl, rfl, rfl⟩
  · split at h
    · cases h
      exact ⟨rfl, rfl, rfl⟩
    · cases h

/-- What a request that is done does to the entries: it changes the counters of one, or makes
    one, which has no owner. -/
theorem done_cases (req : Request) (now : UInt64) (m : Maps) :
    (rqQosDone o req now m).ioSourceMap = m.ioSourceMap ∨ ∃ key data,
      (rqQosDone o req now m).ioSourceMap = (m.ioSourceMap.update key data).getD m.ioSourceMap ∧
        data.owner = m.owner key ∧
        (Labelled m → data.dev = key.dev ∧ data.inode = key.inode) := by
  unfold rqQosDone
  split
  · exact .inl rfl
  split
  swap
  · exact .inl rfl
  split
  · exact .inl rfl
  rename_i info _
  simp only
  rcases hl : m.ioSourceMap.lookup info.ioKey with _ | entry
  · simp only
    split
    · exact .inl rfl
    · rename_i data hd
      refine .inr ⟨info.ioKey, info.label data, rfl, ?_, fun _ => ⟨rfl, rfl⟩⟩
      have htgid : data.tgid = 0 := by
        unfold account at hd
        split at hd
        · cases hd; rfl
        · split at hd
          · cases hd; rfl
          · cases hd
      rw [Maps.owner, hl, Option.bind_none]
      exact if_pos htgid
  · simp only
    split
    · exact .inl rfl
    · rename_i data hd
      obtain ⟨howner, hdev, hinode⟩ := account_owner hd
      refine .inr ⟨info.ioKey, data, rfl, ?_, fun hm => ?_⟩
      · rw [howner, Maps.owner, hl, Option.bind_some]
      · rw [hdev, hinode]
        exact hm _ _ hl

theorem done_owner (req : Request) (now : UInt64) (m : Maps) (key : IoKey) :
    (rqQosDone o req now m).owner key = m.owner key := by
  rcases done_cases (o := o) req now m with h | ⟨k, data, h, howner, -⟩
  · rw [Maps.owner, h]
    rfl
  · rw [Maps.owner, h, BoundedMap.lookup_getD_update]
    by_cases hk : key = k ∧ m.ioSourceMap.HasRoom k
    · rw [if_pos hk, Option.bind_some, howner, hk.1]
    · rw [if_neg hk]
      rfl

theorem labelled_update (h : Labelled m) {key : IoKey} {data : IoData}
    (hd : data.dev = key.dev ∧ data.inode = key.inode) {n : Maps}
    (hn : n.ioSourceMap = (m.ioSourceMap.update key data).getD m.ioSourceMap) : Labelled n := by
  intro k entry hk
  rw [hn] at hk
  rcases BoundedMap.lookup_getD_update_some hk with ⟨rfl, rfl⟩ | ⟨-, hk⟩
  · exact hd
  · exact h k entry hk

theorem adopt_owner (file : File) (cur : Current) (entry : IoData) :
    (file.adopt cur entry).owner =
      entry.owner.or (if cur.pidTgid.toUInt32 = 0 then none else
        some ⟨(cur.pidTgid >>> 32).toUInt32, cur.pidTgid.toUInt32, cur.comm,
          filepathOf filepathMaxDepth file.dentry⟩) := by
  unfold File.adopt
  by_cases h : entry.tgid = 0
  · rw [if_pos h, IoData.owner, IoData.owner, if_pos h]
    rfl
  · rw [if_neg h, IoData.owner, if_neg h]
    rfl

/-- An access makes its thread the owner of an entry that has none. -/
theorem fsAccess_owner {file : File} {count : IoData → IoData} (hcount : ∀ entry, (count entry).owner = entry.owner)
    (hroom : m.ioSourceMap.HasRoom file.ioKey) (cur : Current) (key : IoKey) :
    (fsAccess o file cur count m).owner key = (m.owner key).or (file.owner o cur key) := by
  unfold fsAccess File.owner
  by_cases hdev : o.shouldProcessDevice file.ioKey.dev
  swap
  · rw [if_neg hdev, if_neg, Option.or_none]
    rintro ⟨rfl, hd, -⟩
    exact hdev hd
  rw [if_pos hdev]
  rw [Maps.owner, BoundedMap.lookup_getD_update_room hroom]
  by_cases hkey : key = file.ioKey
  · subst key
    have howner : ((m.ioSourceMap.lookup file.ioKey).getD .zero).owner = m.owner file.ioKey := by
      rw [Maps.owner]
      cases m.ioSourceMap.lookup file.ioKey <;> rfl
    rw [if_pos rfl, Option.bind_some, hcount, adopt_owner, howner]
    by_cases htid : cur.pidTgid.toUInt32 = 0
    · rw [if_pos htid, if_neg fun h => h.2.2 htid]
    · rw [if_neg htid, if_pos ⟨rfl, hdev, htid⟩]
  · rw [if_neg hkey, if_neg fun h => hkey h.1.symm, Option.or_none]
    rfl

theorem labelled_fsAccess (h : Labelled m) (file : File) (cur : Current) {count : IoData → IoData}
    (hcount : ∀ entry, (count entry).dev = entry.dev ∧ (count entry).inode = entry.inode) :
    Labelled (fsAccess o file cur count m) := by
  simp only [fsAccess]
  split
  · refine labelled_update h ?_ rfl
    rw [(hcount _).1, (hcount _).2, File.adopt]
    split
    · exact ⟨rfl, rfl⟩
    · rename_i htgid
      rcases hl : m.ioSourceMap.lookup file.ioKey with _ | entry
      · rw [hl] at htgid
        exact absurd rfl htgid
      · exact h _ _ hl
  · exact h

theorem issue_sources (req : Request) (cur : Current) (m : Maps) :
    (rqQosIssue o req cur m).ioSourceMap = m.ioSourceMap := by
  unfold rqQosIssue
  split
  · rfl
  · split
    · rfl
    · split <;> rfl

theorem labelled_done (h : Labelled m) (req : Request) (now : UInt64) : Labelled (rqQosDone o req now m) := by
  rcases done_cases (o := o) req now m with hd | ⟨k, data, hd, -, hlabel⟩
  · intro key entry hl
    rw [hd] at hl
    exact h key entry hl
  · exact labelled_update h (hlabel h) hd

end

/-! ## The law -/

variable {o}

theorem addWrite_owner (entry : IoData) (n : UInt64) : (entry.addWrite n).owner = entry.owner := rfl

theorem addWrite_label (entry : IoData) (n : UInt64) :
    (entry.addWrite n).dev = entry.dev ∧ (entry.addWrite n).inode = entry.inode := ⟨rfl, rfl⟩

theorem addRead_label (entry : IoData) (n : UInt64) :
    (entry.addRead n).dev = entry.dev ∧ (entry.addRead n).inode = entry.inode := ⟨rfl, rfl⟩

theorem addRead_owner (entry : IoData) (n : UInt64) : (entry.addRead n).owner = entry.owner := rfl

/-- A step leaves an owner alone, and makes the thread of an access the owner where there is none. -/
theorem step_owner {e : Ev} {s t : St} (hroom : Room e s) (hs : step o e s = some t) (key : IoKey) :
    t.maps.owner key = (s.maps.owner key).or (e.owner o key) := by
  cases e with
  | issue id req cur =>
    simp only [step] at hs
    split at hs
    · cases hs
    · cases hs
      rw [Ev.owner, Option.or_none, Maps.owner, issue_sources]
      rfl
  | done id now =>
    simp only [step] at hs
    split at hs
    · cases hs
    · cases hs
      rw [Ev.owner, Option.or_none]
      exact done_owner _ now s.maps key
  | readWrite file cur write count kiFlags =>
    cases hs
    refine fsAccess_owner (fun entry => ?_) hroom cur key
    cases write
    · exact addRead_owner entry count
    · exact addWrite_owner entry count
  | mkwrite file cur =>
    cases hs
    exact fsAccess_owner (addWrite_owner · pageSize) hroom cur key
  | fault file cur =>
    cases hs
    exact fsAccess_owner (addRead_owner · pageSize) hroom cur key

theorem step_labelled {e : Ev} {s t : St} (h : Labelled s.maps) (hs : step o e s = some t) : Labelled t.maps := by
  cases e with
  | issue id req cur =>
    simp only [step] at hs
    split at hs
    · cases hs
    · cases hs
      intro key entry hl
      rw [issue_sources] at hl
      exact h key entry hl
  | done id now =>
    simp only [step] at hs
    split at hs
    · cases hs
    · cases hs
      exact labelled_done h _ now
  | readWrite file cur write count kiFlags =>
    cases hs
    refine labelled_fsAccess h file cur fun entry => ?_
    cases write
    · exact addRead_label entry count
    · exact addWrite_label entry count
  | mkwrite file cur =>
    cases hs
    have hlabel := labelled_fsAccess (o := o) h file cur fun entry : IoData => addWrite_label entry pageSize
    exact hlabel
  | fault file cur =>
    cases hs
    have hlabel := labelled_fsAccess (o := o) h file cur fun entry : IoData => addRead_label entry pageSize
    exact hlabel

/-- From any state on: an entry keeps its owner, or gets that of its next access. -/
theorem owner_of_execIf {s t : St} {es : List Ev} (h : execIf (step o) Room es s = some t) (key : IoKey) :
    t.maps.owner key = (s.maps.owner key).or (firstOwner o key es) := by
  induction es generalizing s with
  | nil =>
    cases h
    exact (Option.or_none).symm
  | cons e es ih =>
    obtain ⟨u, hu, ht⟩ := Option.bind_eq_some_iff.mp h
    obtain ⟨hroom, hs⟩ := Option.ite_none_right_eq_some.mp hu
    have hcons : firstOwner o key (e :: es) = (e.owner o key).or (firstOwner o key es) := by
      rw [firstOwner, List.findSome?_cons]
      cases e.owner o key <;> rfl
    rw [ih ht, step_owner hroom hs key, hcons, Option.or_assoc]

/-- The owner of an entry is the thread of the first access, under its command and path, and the
    entry is of its key's file. -/
theorem first_access_owns {inflight : ReqId → Option Request} {s : St} {es : List Ev}
    (h : execIf (step o) Room es (init inflight) = some s) :
    (∀ key, s.maps.owner key = firstOwner o key es) ∧ Labelled s.maps := by
  constructor
  · intro key
    rw [owner_of_execIf h key]
    rfl
  · have hlabel : Labelled (init inflight).maps := fun key entry hl => by
      rw [show (init inflight).maps.ioSourceMap.lookup key = none from BoundedMap.lookup_empty key] at hl
      cases hl
    exact (run_of_execIf h).inv (P := fun s => Labelled s.maps) hlabel fun _ _ _ hl _ hs => step_labelled hl hs

/-- From the root on a path repeats it, up to its eight names. -/
theorem filepathOf_root {name : Name} (h : component name ≠ []) (n : Nat) :
    filepathOf n (.root name) = List.replicate n (component name) := by
  induction n with
  | zero => rfl
  | succ n ih =>
    rw [filepathOf, List.replicate_succ, ← ih]
    exact if_neg h

/-- A thread that reads a file after another one has written it, and its block request, leave
    the first one the owner. -/
theorem writer_stays_the_owner : ∃ s,
    execIf (step everyDevice) Room
      [.readWrite ⟨7, 1, .child [102] (.root [47])⟩ ⟨5, [97]⟩ true 100 0,
        .issue 0 { directRead 8 512 with inode := 7, sDev := 1 } (processOf 9), .done 0 10,
        .fault ⟨7, 1, .child [102] (.root [47])⟩ ⟨6, [98]⟩] (init idle) = some s ∧
    s.maps.owner ⟨0, 1, 7⟩ = some ⟨0, 5, [97], [102] :: List.replicate 7 [47]⟩ ∧
    (∀ key, s.maps.owner key = firstOwner everyDevice key
      [.readWrite ⟨7, 1, .child [102] (.root [47])⟩ ⟨5, [97]⟩ true 100 0,
        .issue 0 { directRead 8 512 with inode := 7, sDev := 1 } (processOf 9), .done 0 10,
        .fault ⟨7, 1, .child [102] (.root [47])⟩ ⟨6, [98]⟩]) ∧ Labelled s.maps := by
  obtain ⟨s, -, hs, hp⟩ := execIf_any (step everyDevice) Room (init idle)
    [.readWrite ⟨7, 1, .child [102] (.root [47])⟩ ⟨5, [97]⟩ true 100 0,
      .issue 0 { directRead 8 512 with inode := 7, sDev := 1 } (processOf 9), .done 0 10,
      .fault ⟨7, 1, .child [102] (.root [47])⟩ ⟨6, [98]⟩]
    (fun s => s.maps.owner ⟨0, 1, 7⟩ = some ⟨0, 5, [97], [102] :: List.replicate 7 [47]⟩) (by decide +kernel)
  exact ⟨s, hs, of_decide_eq_true hp, first_access_owns hs⟩

end Ksight.Iotracing

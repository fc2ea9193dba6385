/-
  Ksight.Iotracing.Outstanding — the starts of the requests in flight
  (src/fs/iotracing/bpf/iotracing.bpf.c: `bpf_rq_qos_issue`, `bpf_rq_qos_done`).

  The law (`Mirrors`): `start_info_map` has the traced requests in flight, each under its
  device and sector with who issued it, and nothing else. So a request that is done finds its
  own start and deletes it, whether it is a read, a write or something else, and one that is
  not traced finds none.

  `starts_mirror_requests`: the law holds in every run in which no request is issued where
  another one is in flight, traced or not, and the maps have room (`Fresh`), and with it that
  of the counters (`Right`).
-/

import Ksight.Iotracing.Totals

namespace Ksight.Iotracing

open Ksight.Lib

/-- No two requests in flight start at one sector of one device. -/
def Distinct (s : St) : Prop :=
  ∀ id id' i i' key, s.inflight id = some i → s.inflight id' = some i' → i.req.hashKey = some key →
    i'.req.hashKey = some key → id = id'

/-- The law. -/
def Mirrors (s : St) : Prop :=
  ∀ key info, s.maps.startInfoMap.lookup key = some info ↔
    ∃ id i, s.inflight id = some i ∧ i.req.hashKey = some key ∧ i.info = some info

variable (o : Options)

/-- The condition. -/
def Fresh (e : Ev) (s : St) : Prop :=
  match e with
  | .issue _ req cur => ∀ key ∈ req.hashKey,
      (∀ id i, s.inflight id = some i → i.req.hashKey ≠ some key) ∧
        (req.traced o cur ≠ none → s.maps.startInfoMap.HasRoom key)
  | e => ∀ x ∈ due o s e, s.maps.ioSourceMap.HasRoom x.1

structure Inv (s : St) : Prop where
  distinct : Distinct s
  mirrors : Mirrors s
  /-- What is traced is of a device that is. -/
  traced : ∀ id i info, s.inflight id = some i → i.info = some info →
    ∃ key, i.req.hashKey = some key ∧ o.shouldProcessDevice key.dev = true

variable {o}

theorem traced_eq_some {req : Request} {cur : Current} {info : IoStartInfo} (h : req.traced o cur = some info) :
    req.cmdFlags &&& reqMeta = 0 ∧ ∃ key, req.hashKey = some key ∧ o.shouldProcessDevice key.dev = true ∧
      req.startInfo key cur = info := by
  unfold Request.traced at h
  split at h
  · cases h
  · rename_i hmeta
    obtain ⟨key, hkey, hif⟩ := Option.bind_eq_some_iff.mp h
    obtain ⟨hdev, hinfo⟩ := Option.ite_none_right_eq_some.mp hif
    exact ⟨not_not.mp hmeta, key, hkey, hdev, Option.some.inj hinfo⟩

/-- The issue of a request enters it if it is traced, and else nothing. -/
theorem lookup_issue {req : Request} {cur : Current} {m : Maps}
    (hroom : ∀ key ∈ req.hashKey, req.traced o cur ≠ none → m.startInfoMap.HasRoom key) (key : HashKey) :
    (rqQosIssue o req cur m).startInfoMap.lookup key =
      if req.hashKey = some key ∧ req.traced o cur ≠ none then req.traced o cur else m.startInfoMap.lookup key := by
  by_cases hmeta : req.cmdFlags &&& reqMeta = 0
  swap
  · have htraced : req.traced o cur = none := if_pos hmeta
    rw [rqQosIssue, if_pos hmeta, if_neg fun h => h.2 htraced]
  rw [rqQosIssue, if_neg (not_not.mpr hmeta)]
  rcases hk : req.hashKey with _ | k
  · rw [if_neg fun h => nomatch h.1]
  by_cases hdev : o.shouldProcessDevice k.dev
  swap
  · have htraced : req.traced o cur = none := by
      rw [Request.traced, if_neg (not_not.mpr hmeta), hk, Option.bind_some, if_neg hdev]
    simp only [if_neg hdev, htraced, ne_eq, not_true_eq_false, and_false, if_false]
  · have htraced : req.traced o cur = some (req.startInfo k cur) := by
      rw [Request.traced, if_neg (not_not.mpr hmeta), hk, Option.bind_some, if_pos hdev]
    have hr : m.startInfoMap.HasRoom k := hroom k hk (by rw [htraced]; exact Option.some_ne_none _)
    rw [htraced]
    simp only [if_pos hdev, BoundedMap.lookup_getD_update_room hr, ne_eq, reduceCtorEq, not_false_eq_true, and_true,
      Option.some.injEq]
    simp only [eq_comm (a := key)]

/-- A request that is done deletes what it finds. -/
theorem lookup_done (req : Request) (now : UInt64) (m : Maps) (key : HashKey) :
    (rqQosDone o req now m).startInfoMap.lookup key =
      if req.hashKey = some key ∧ o.shouldProcessDevice key.dev then none else m.startInfoMap.lookup key := by
  unfold rqQosDone
  rcases hk : req.hashKey with _ | k
  · rw [if_neg fun h => nomatch h.1]
  by_cases hdev : o.shouldProcessDevice k.dev
  swap
  · simp only [if_neg hdev]
    rw [if_neg]
    rintro ⟨he, hd⟩
    cases he
    exact hdev hd
  simp only [if_pos hdev]
  have hdelete : (m.startInfoMap.delete k).lookup key =
      if some k = some key ∧ o.shouldProcessDevice key.dev then none else m.startInfoMap.lookup key := by
    rw [BoundedMap.lookup_delete]
    by_cases hkey : key = k
    · subst key
      rw [if_pos rfl, if_pos ⟨rfl, hdev⟩]
    · rw [if_neg hkey, if_neg fun h => hkey (Option.some.inj h.1).symm]
  rcases hl : m.startInfoMap.lookup k with _ | info
  · by_cases hkey : key = k
    · subst key
      rw [hl, ite_self]
    · rw [if_neg fun h => hkey (Option.some.inj h.1).symm]
  simp only
  rcases m.ioSourceMap.lookup info.ioKey with _ | entry
  · simp only
    rcases account req info now .zero with _ | data
    · exact hdelete
    · exact hdelete
  · simp only
    rcases account req info now entry with _ | data
    · exact hdelete
    · exact hdelete

/-- A request that is done finds its own start, or none if it is not traced. -/
theorem Inv.found {s : St} (h : Inv o s) {id : ReqId} {i : Issued} (hi : s.inflight id = some i) :
    s.maps.found o i.req = i.info := by
  unfold Maps.found
  rcases hinfo : i.info with _ | info
  · rcases hk : i.req.hashKey with _ | key
    · rfl
    rw [Option.bind_some]
    split
    · by_contra hne
      obtain ⟨info, hl⟩ := Option.ne_none_iff_exists'.mp hne
      obtain ⟨id', i', hi', hk', hinfo'⟩ := (h.mirrors key info).mp hl
      obtain rfl := h.distinct id id' i i' key hi hi' hk hk'
      rw [hi] at hi'
      cases hi'
      rw [hinfo] at hinfo'
      cases hinfo'
    · rfl
  · obtain ⟨key, hk, hdev⟩ := h.traced id i info hi hinfo
    rw [hk, Option.bind_some, if_pos hdev]
    exact (h.mirrors key info).mpr ⟨id, i, hi, hk, hinfo⟩

theorem init_inv {inflight : ReqId → Option Request} (hd : Distinct (init inflight)) : Inv o (init inflight) := by
  have hinfo : ∀ id i, (init inflight).inflight id = some i → i.info = none := by
    intro id i hi
    obtain ⟨req, -, rfl⟩ := Option.map_eq_some_iff.mp hi
    rfl
  refine ⟨hd, fun key info => ⟨fun h => ?_, fun ⟨id, i, hi, _, h⟩ => ?_⟩, fun id i info hi h => ?_⟩
  · rw [show (init inflight).maps.startInfoMap.lookup key = none from BoundedMap.lookup_empty key] at h
    cases h
  · rw [hinfo id i hi] at h
    cases h
  · rw [hinfo id i hi] at h
    cases h

theorem Inv.issue {s : St} (h : Inv o s) {id : ReqId} {req : Request} {cur : Current}
    (hf : Fresh o (.issue id req cur) s) (hid : s.inflight id = none) :
    Inv o { s with
      maps := rqQosIssue o req cur s.maps
      inflight := Function.update s.inflight id (some ⟨req, req.traced o cur⟩) } := by
  have hnew : ∀ id' i, Function.update s.inflight id (some ⟨req, req.traced o cur⟩) id' = some i →
      id' = id ∧ i = ⟨req, req.traced o cur⟩ ∨ id' ≠ id ∧ s.inflight id' = some i := by
    intro id' i hi
    by_cases he : id' = id
    · subst id'
      rw [Function.update_self] at hi
      exact .inl ⟨rfl, (Option.some.inj hi).symm⟩
    · rw [Function.update_of_ne he] at hi
      exact .inr ⟨he, hi⟩
  have hself := Function.update_self id (some (⟨req, req.traced o cur⟩ : Issued)) s.inflight
  have hother : ∀ id', id' ≠ id → Function.update s.inflight id (some ⟨req, req.traced o cur⟩) id' = s.inflight id' :=
    fun id' he => Function.update_of_ne he _ _
  refine ⟨?_, fun key info => ?_, ?_⟩
  · intro a b i i' key hi hi' hk hk'
    rcases hnew a i hi with ⟨rfl, rfl⟩ | ⟨ha, hia⟩ <;> rcases hnew b i' hi' with ⟨rfl, rfl⟩ | ⟨hb, hib⟩
    · rfl
    · exact absurd hk' ((hf key hk).1 b i' hib)
    · exact absurd hk ((hf key hk').1 a i hia)
    · exact h.distinct a b i i' key hia hib hk hk'
  · simp only [lookup_issue (fun k hk => (hf k hk).2) key]
    by_cases hkey : req.hashKey = some key ∧ req.traced o cur ≠ none
    · rw [if_pos hkey]
      constructor
      · intro hinfo
        exact ⟨id, _, hself, hkey.1, hinfo⟩
      · rintro ⟨id', i, hi, hk, hinfo⟩
        rcases hnew id' i hi with ⟨rfl, rfl⟩ | ⟨-, hi⟩
        · exact hinfo
        · exact absurd hk ((hf key hkey.1).1 id' i hi)
    · rw [if_neg hkey, h.mirrors key info]
      constructor
      · rintro ⟨id', i, hi, hk, hinfo⟩
        have hne : id' ≠ id := by
          rintro rfl
          rw [hid] at hi
          cases hi
        exact ⟨id', i, (hother id' hne).trans hi, hk, hinfo⟩
      · rintro ⟨id', i, hi, hk, hinfo⟩
        rcases hnew id' i hi with ⟨rfl, rfl⟩ | ⟨-, hi⟩
        · exact absurd ⟨hk, Option.ne_none_iff_exists'.mpr ⟨info, hinfo⟩⟩ hkey
        · exact ⟨id', i, hi, hk, hinfo⟩
  · intro id' i info hi hinfo
    rcases hnew id' i hi with ⟨rfl, rfl⟩ | ⟨-, hi⟩
    · obtain ⟨-, key, hk, hdev, -⟩ := traced_eq_some hinfo
      exact ⟨key, hk, hdev⟩
    · exact h.traced id' i info hi hinfo

theorem Inv.done {s : St} (h : Inv o s) {id : ReqId} {i : Issued} (hi : s.inflight id = some i) (now : UInt64)
    (charges : List (Option (IoKey × Tally))) :
    Inv o ⟨rqQosDone o i.req now s.maps, Function.update s.inflight id none, charges⟩ := by
  have hrest : ∀ id' i', Function.update s.inflight id none id' = some i' ↔ id' ≠ id ∧ s.inflight id' = some i' := by
    intro id' i'
    by_cases he : id' = id
    · subst id'
      rw [Function.update_self]
      exact ⟨nofun, fun h => absurd rfl h.1⟩
    · rw [Function.update_of_ne he]
      exact ⟨fun hi => ⟨he, hi⟩, And.right⟩
  refine ⟨?_, fun key info => ?_, ?_⟩
  · intro a b j j' key hj hj' hk hk'
    exact h.distinct a b j j' key ((hrest a j).mp hj).2 ((hrest b j').mp hj').2 hk hk'
  · simp only [lookup_done, hrest]
    by_cases hkey : i.req.hashKey = some key ∧ o.shouldProcessDevice key.dev
    · rw [if_pos hkey]
      refine ⟨nofun, ?_⟩
      rintro ⟨id', i', ⟨hne, hi'⟩, hk, -⟩
      exact absurd (h.distinct id' id i' i key hi' hi hk hkey.1) hne
    · rw [if_neg hkey, h.mirrors key info]
      constructor
      · rintro ⟨id', i', hi', hk, hinfo⟩
        refine ⟨id', i', ⟨?_, hi'⟩, hk, hinfo⟩
        rintro rfl
        rw [hi] at hi'
        cases hi'
        obtain ⟨key', hk', hdev⟩ := h.traced id' i info hi hinfo
        rw [hk] at hk'
        cases hk'
        exact hkey ⟨hk, hdev⟩
      · rintro ⟨id', i', ⟨-, hi'⟩, hk, hinfo⟩
        exact ⟨id', i', hi', hk, hinfo⟩
  · intro id' i' info hi' hinfo
    exact h.traced id' i' info ((hrest id' i').mp hi').2 hinfo

theorem startInfoMap_fsAccess (file : File) (cur : Current) (count : IoData → IoData) (m : Maps) :
    (fsAccess o file cur count m).startInfoMap = m.startInfoMap := by
  simp only [fsAccess]
  split <;> rfl

/-- What happens to files does not concern the requests. -/
theorem Inv.access {s : St} (h : Inv o s) (file : File) (cur : Current) (count : IoData → IoData)
    (charges : List (Option (IoKey × Tally))) : Inv o ⟨fsAccess o file cur count s.maps, s.inflight, charges⟩ where
  distinct := h.distinct
  mirrors key info := by
    rw [startInfoMap_fsAccess]
    exact h.mirrors key info
  traced := h.traced

theorem Inv.step {e : Ev} {s t : St} (h : Inv o s) (he : Fresh o e s) (hs : step o e s = some t) : Inv o t := by
  cases e with
  | issue id req cur =>
    simp only [Iotracing.step] at hs
    split at hs
    · cases hs
    · rename_i hid
      cases hs
      exact h.issue he hid
  | done id now =>
    simp only [Iotracing.step] at hs
    split at hs
    · cases hs
    · rename_i i hi
      cases hs
      exact h.done hi now _
  | readWrite file cur write count kiFlags =>
    cases hs
    exact h.access file cur _ _
  | mkwrite file cur =>
    cases hs
    exact h.access file cur _ _
  | fault file cur =>
    cases hs
    exact h.access file cur _ _

theorem kept_of_room {m : Maps} {charge : Option (IoKey × Tally)} (h : ∀ x ∈ charge, m.ioSourceMap.HasRoom x.1) :
    m.kept charge = charge := by
  rcases charge with _ | x
  · rfl
  · exact Option.filter_some_pos (decide_eq_true (h x rfl))

theorem Inv.charged {s : St} (h : Inv o s) {e : Ev} (he : Fresh o e s) : Charged o e s := by
  cases e with
  | issue id req cur => trivial
  | done id now =>
    rcases hi : s.inflight id with _ | i
    · simp only [Charged, hi]
    · simp only [Charged, hi, h.found hi]
      have hdue : due o s (.done id now) = i.due now := by rw [due, hi, Option.bind_some]
      exact kept_of_room fun x hx => he x (hdue ▸ hx)
  | readWrite file cur write count kiFlags => exact kept_of_room he
  | mkwrite file cur => exact kept_of_room he
  | fault file cur => exact kept_of_room he

/-- In every run under the condition the starts are those of the traced requests in flight, and
    all counters are right. -/
theorem starts_mirror_requests {inflight : ReqId → Option Request} (hd : Distinct (init inflight)) {s : St}
    (h : Run (step o) (Fresh o) (init inflight) s) : Mirrors s ∧ Right s := by
  have hinv : Inv o s ∧ Right s :=
    Run.inv (P := fun s => Inv o s ∧ Right s) h ⟨init_inv hd, right_init inflight⟩ fun e t u ht he hs =>
      ⟨ht.1.step he hs, (right_step ht.2 hs).mpr (ht.1.charged he)⟩
  exact ⟨hinv.1.mirrors, hinv.2⟩

/-- Processes 1 and 2 read different sectors at once, and the read of process 2 is done. -/
theorem two_reads_are_mirrored : ∃ s, Run (step everyDevice) (Fresh everyDevice) (init idle) s ∧
    s.maps.tally ⟨2, 0x800001, 0⟩ .blockRead = 4096 ∧ (s.maps.startInfoMap.lookup ⟨0x800001, 8⟩).isSome ∧
    Mirrors s ∧ Right s := by
  have hd : Distinct (init idle) := fun _ _ _ _ _ hi => nomatch hi
  have hfirst : Fresh everyDevice (.issue 0 (directRead 8 512) (processOf 1)) (init idle) :=
    fun key _ => And.intro (fun _ _ hi => nomatch hi) fun _ => .inr (by decide)
  obtain ⟨s₁, h₁, hin, hrest⟩ : ∃ s₁,
      step everyDevice (.issue 0 (directRead 8 512) (processOf 1)) (init idle) = some s₁ ∧
      (∀ id i, s₁.inflight id = some i → i.req = directRead 8 512) ∧ s₁.maps.startInfoMap.keys.card = 1 ∧
      (step everyDevice (.issue 1 (directRead 16 4096) (processOf 2)) s₁).any fun s₂ =>
        s₂.maps.ioSourceMap.keys.card = 0 && (step everyDevice (.done 1 10) s₂).any fun s₃ =>
          s₃.maps.tally ⟨2, 0x800001, 0⟩ .blockRead = 4096 && (s₃.maps.startInfoMap.lookup ⟨0x800001, 8⟩).isSome := by
    refine ⟨_, rfl, fun id i hi => ?_, by decide +kernel, by decide +kernel⟩
    by_cases h0 : id = 0
    · subst h0
      simp only [Function.update_self, Option.some.injEq] at hi
      rw [← hi]
    · simp only [Function.update_of_ne h0] at hi
      cases hi
  obtain ⟨hcard, hany⟩ := hrest
  obtain ⟨s₂, h₂, hany⟩ := (Option.any_eq_true _ _).mp hany
  rw [Bool.and_eq_true, decide_eq_true_iff] at hany
  obtain ⟨s₃, h₃, hend⟩ := (Option.any_eq_true _ _).mp hany.2
  rw [Bool.and_eq_true, decide_eq_true_iff] at hend
  have hsecond : Fresh everyDevice (.issue 1 (directRead 16 4096) (processOf 2)) s₁ := by
    intro key hkey
    refine ⟨fun id i hi => ?_, fun _ => .inr (by rw [hcard]; decide)⟩
    rw [hin id i hi]
    cases hkey
    decide
  have hdone : Fresh everyDevice (.done 1 10) s₂ := fun x _ => .inr (by rw [hany.1]; decide)
  have hr := Run.snoc _ (.snoc _ (.snoc _ .refl hfirst h₁) hsecond h₂) hdone h₃
  exact ⟨s₃, hr, hend.1, hend.2, starts_mirror_requests hd hr⟩

end Ksight.Iotracing

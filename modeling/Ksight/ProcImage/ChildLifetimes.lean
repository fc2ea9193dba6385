/-
  Ksight.ProcImage.ChildLifetimes — the events of children against the children there are
  (src/process/proc_image/bpf/keytime_image.bpf.c, include/keytime_image.h).

  The law (`Paired`): each child of a parent that passes the filter has one enter event
  when the call that made it is over, and one exit event when it has exited; there are no
  other events of these types, and an entry of the map is of a thread that lives.

  `lifetimes_paired`: it holds in every run under the condition `Orderly`. What breaks it
  without: a fork or a vfork that fails (`failed_fork_is_reported`,
  `failed_vfork_is_reported`), a child that is gone before its parent's probe
  (`early_exit_leaves_an_entry`), a thread that is made when there is no target
  (`thread_is_not_reported`), a thread that an exit_group ends
  (`killed_thread_has_no_exit`).
-/

import Ksight.Lib.Run
import Ksight.ProcImage.ChildMarks

namespace Ksight.ProcImage.KeytimeImage

open Ksight.Lib

variable (f : Filter)

/-! ## The law -/

/-- The thread that the probe of a creation runs in. -/
def Creation.prober (k : Creation) : Int32 := if k.kind = .vfork then k.child else k.parent

/-- The creation whose probe is to run in the thread, which is `t`. -/
def Thread.creating (x : Thread) (t : Int32) : Option Creation :=
  match x.call with
  | .fork ret => if 0 < ret then some ⟨.fork, t, ret⟩ else none
  | .clone3 ret => if 0 < ret then some ⟨.pthread, t, ret⟩ else none
  | .vforkChild => x.origin
  | _ => none

/-- The call that made the child is not over: its enter event is still to come. -/
def St.Pending (st : St) (k : Creation) : Prop := (st.thread k.prober).bind (·.creating k.prober) = some k

instance (st : St) (k : Creation) : Decidable (st.Pending k) := inferInstanceAs (Decidable (_ = _))

structure Paired (st : St) : Prop where
  enter : ∀ k : Creation, st.maps.keytimeRb.count k.enterEvent +
    (if Passes f k.parent ∧ st.Pending k then 1 else 0) = st.created k
  exit : ∀ k : Creation, st.maps.keytimeRb.count k.exitEvent = st.exited k
  /-- An entry is of the thread that has the pid now. -/
  live : ∀ c info, st.maps.child.lookup c = some info →
    ∃ x ∈ st.thread c, ∃ k ∈ x.origin, k.child = c ∧ info = k.info

/-- What the threads that end leave behind is reported: their own creations and those they
    are in the call of. The parent of a child that has not returned from vfork is not
    replaced if the filter lets one of the two pass. -/
def Quiet (st : St) (t : Int32) (dead : Int32 → Bool) (reaper : Int32) : Prop :=
  (∀ x ∈ st.thread t, x.origin ≠ none → x.noticed = true) ∧
    ∀ u ∈ st.tids, ∀ y ∈ st.thread u,
      (dead u = true → u ≠ t → y.origin = none ∧ ∀ k ∈ y.creating u, ¬ Passes f k.parent) ∧
      (y.call = .vforkChild → dead y.realParent = true → ¬ Passes f y.realParent ∧ ¬ Passes f reaper)

instance (st : St) (t : Int32) (dead : Int32 → Bool) (reaper : Int32) : Decidable (Quiet f st t dead reaper) :=
  @instDecidableAnd _ _ inferInstance (List.decidableBAll _ st.tids)

/-- The condition: no fork of a parent that passes fails, and no vfork of a thread whose own
    parent does; such a parent is not ignored, nor is its child, and calls pthread_create
    only if it is the target; and the threads that end are quiet. -/
def Orderly : Ev → St → Prop
  | .fork t c, st => ∀ x ∈ st.thread t, Passes f t → x.tgid ≠ f.ignoreTgid ∧ c ≠ f.ignoreTgid
  | .forkReturn t, st => ∀ x ∈ st.thread t, x.creating t = none → x.tgid ≠ f.ignoreTgid → ¬ Passes f t
  | .vfork t c, _ => Passes f t → c ≠ f.ignoreTgid
  | .vforkReturn t, st =>
    ∀ x ∈ st.thread t, x.call = .vfork (-1) → x.tgid ≠ f.ignoreTgid → ¬ Passes f x.realParent
  | .clone3 t _, st => ∀ x ∈ st.thread t, Passes f t → x.tgid ≠ f.ignoreTgid ∧ f.targetPid ≠ -1
  | .exit t reaper _, st => Quiet f st t (· = t) reaper
  | .exitGroup t reaper _, st => ∀ x ∈ st.thread t, Quiet f st t (st.group x.tgid) reaper
  | _, _ => True

instance : ∀ (e : Ev) (st : St), Decidable (Orderly f e st)
  | .fork .., _ | .forkReturn _, _ | .vforkReturn _, _ | .clone3 .., _ | .exitGroup .., _ =>
    inferInstanceAs (Decidable (∀ _ ∈ _, _))
  | .vfork .., _ => inferInstanceAs (Decidable (_ → _))
  | .exit .., _ => inferInstanceAs (Decidable (Quiet ..))
  | .forkFails _, _ | .vforkFails _, _ | .vforkResume _, _ | .pthreadCreate _, _ | .clone3Fails _, _
  | .clone3Exit _, _ | .pthreadReturn _, _ => inferInstanceAs (Decidable True)

/-! ## The invariant -/

def Call.inPthread : Call → Bool
  | .pthread | .clone3 _ => true
  | _ => false

structure Known (st : St) (t : Int32) (x : Thread) : Prop where
  pos : 0 < t
  tids : t ∈ st.tids
  own : ∀ k, x.origin = some k → k.child = t ∧ Passes f k.parent ∧ x.tgid ≠ f.ignoreTgid
  seen : ∀ k, x.creating t = some k → Passes f k.parent →
    x.tgid ≠ f.ignoreTgid ∧ (k.kind = .pthread → f.targetPid ≠ -1)
  enabled : x.call.inPthread = true → x.tgid ≠ f.ignoreTgid → st.maps.pthreadCreateEnable.lookup t = some true
  vforked : x.call = .vforkChild →
    x.origin = if Passes f x.realParent then some ⟨.vfork, x.realParent, t⟩ else none

structure Inv (st : St) : Prop where
  booked : Booked st
  known : ∀ t x, st.thread t = some x → Known f st t x
  pending : ∀ k : Creation, Passes f k.parent → (st.Pending k ↔ st.mark k.child = some (some k, false))

theorem init_inv (start : List Existing) : Inv f (init start) := by
  have hthread : ∀ t x, (init start).thread t = some x →
      0 < t ∧ t ∈ (init start).tids ∧ x.call = .run ∧ x.origin = none := by
    intro t x hx
    obtain ⟨e, he, rfl⟩ := Option.map_eq_some_iff.mp hx
    have het : e.tid = t := by simpa using List.find?_some he
    exact ⟨het ▸ e.pos, List.mem_map.mpr ⟨e, List.mem_of_find?_eq_some he, het⟩, rfl, rfl⟩
  have hmark : ∀ c k n, (init start).mark c ≠ some (some k, n) := by
    intro c k n hm
    obtain ⟨x, hx, ho, -⟩ := mark_eq_some.mp hm
    cases (hthread c x hx).2.2.2.symm.trans ho
  refine ⟨⟨fun k => ?_, fun k => rfl, fun c => ?_⟩, fun t x hx => ?_, fun k hp => ?_⟩
  · rw [if_neg (hmark _ _ _)]
    rfl
  · rcases hm : (init start).mark c with _ | ⟨_ | k, n⟩
    · rfl
    · simp [entryOf, init, Maps.empty]
    · exact absurd hm (hmark c k n)
  · obtain ⟨hpos, htids, hcall, ho⟩ := hthread t x hx
    refine ⟨hpos, htids, ?_, ?_, ?_, ?_⟩ <;> simp [Thread.creating, Call.inPthread, hcall, ho]
  · refine iff_of_false (fun h => ?_) (hmark _ _ _)
    obtain ⟨x, hx, hc⟩ := Option.bind_eq_some_iff.mp h
    simp [Thread.creating, (hthread _ x hx).2.2.1] at hc

variable {f}

theorem Inv.paired {st : St} (hi : Inv f st) : Paired f st := by
  refine ⟨fun k => ?_, hi.booked.exit, fun c info h => ?_⟩
  · rw [← hi.booked.enter k]
    congr 1
    refine if_congr ⟨fun h => (hi.pending k h.1).mp h.2, fun h => ?_⟩ rfl rfl
    obtain ⟨x, hx, ho, -⟩ := mark_eq_some.mp h
    have hp := ((hi.known _ x hx).own k ho).2.1
    exact ⟨hp, (hi.pending k hp).mpr h⟩
  · rw [hi.booked.entry] at h
    obtain ⟨⟨o, n⟩, hm, hn⟩ := Option.bind_eq_some_iff.mp h
    simp only [entryOf, Option.ite_none_right_eq_some] at hn
    obtain ⟨k, rfl, rfl⟩ := Option.map_eq_some_iff.mp hn.2
    obtain ⟨x, hx, ho, -⟩ := mark_eq_some.mp hm
    exact ⟨x, hx, k, ho, ((hi.known c x hx).own k ho).1, rfl⟩

/-! ## One step -/

theorem Known.keep {st : St} {u : Int32} {x : Thread} (h : Known f st u x) (st' : St)
    (htids : u ∈ st.tids → u ∈ st'.tids)
    (hflag : st'.maps.pthreadCreateEnable.lookup u = st.maps.pthreadCreateEnable.lookup u) (n : Bool) :
    Known f st' u { x with noticed := n } :=
  ⟨h.pos, htids h.tids, h.own, h.seen, by rw [hflag]; exact h.enabled, h.vforked⟩

/-- The probe of a creation runs in the thread that is to run it. -/
theorem Known.prober {st : St} {t : Int32} {x : Thread} (h : Known f st t x) {k : Creation}
    (hk : x.creating t = some k) : k.prober = t := by
  rcases hc : x.call with _ | ret | _ | _ | _ | ret <;> simp only [Thread.creating, hc] at hk
  · cases hk
  · split at hk
    · cases hk
      rfl
    · cases hk
  · cases hk
  · have hv := h.vforked hc
    rw [hk] at hv
    split at hv
    · cases hv
      rfl
    · cases hv
  · cases hk
  · split at hk
    · cases hk
      rfl
    · cases hk

theorem pending_setCall {st : St} {t : Int32} {y : Thread} (hy : st.thread t = some y) (call : Call)
    (k : Creation) :
    (st.setCall t call).Pending k ↔
      if k.prober = t then { y with call := call }.creating t = some k else st.Pending k := by
  simp only [St.Pending, St.setCall, Function.update_apply]
  split
  · next e => rw [e, hy]; rfl
  · rfl

theorem pending_notice {st : St} (k k' : Creation) : (st.notice k).Pending k' ↔ st.Pending k' := by
  simp only [St.Pending, St.notice, Function.update_apply]
  split
  · next e =>
    rw [e]
    rcases st.thread k.child with _ | x
    · rfl
    · show (if x.origin = some k then { x with noticed := true } else x).creating k.child = some k' ↔ _
      split <;> rfl
  · rfl

theorem notice_self {st : St} {k : Creation} (h : st.mark k.child ≠ some (some k, false)) : st.notice k = st := by
  have hthread : Function.update st.thread k.child
      ((st.thread k.child).map fun x => if x.origin = some k then { x with noticed := true } else x) = st.thread := by
    rw [Function.update_eq_self_iff]
    rcases hx : st.thread k.child with _ | x
    · rfl
    · rw [St.mark, hx] at h
      by_cases ho : x.origin = some k
      · rcases hn : x.noticed
        · simp [ho, hn] at h
        · rw [Option.map_some, if_pos ho, ← hn]
      · rw [Option.map_some, if_neg ho]
  rw [St.notice, hthread]

/-- A call of `t` begins, fails or ends and no probe reports a creation. -/
theorem call_inv {st : St} (hi : Inv f st) {t : Int32} {y : Thread} (hy : st.thread t = some y)
    (hold : ∀ k, y.creating t = some k → ¬ Passes f k.parent) {call : Call}
    (hnew : { y with call := call }.creating t = none) (hv : call ≠ .vforkChild) {m : Maps}
    (hc : m.child = st.maps.child) (hrb : m.keytimeRb = st.maps.keytimeRb)
    (hflag : ∀ u, u ≠ t → m.pthreadCreateEnable.lookup u = st.maps.pthreadCreateEnable.lookup u)
    (hflagt : call.inPthread = true → y.tgid ≠ f.ignoreTgid → m.pthreadCreateEnable.lookup t = some true) :
    Inv f { st.setCall t call with maps := m } := by
  have hmark : ∀ c, ({ st.setCall t call with maps := m } : St).mark c = st.mark c := fun c => mark_setCall st t call c
  have hk := hi.known t y hy
  refine ⟨hi.booked.congr hmark hc hrb rfl rfl, fun u x hx => ?_, fun k hp => ?_⟩
  · simp only [St.setCall, Function.update_apply] at hx
    split at hx
    · subst u
      rw [hy] at hx
      cases hx
      exact ⟨hk.pos, hk.tids, hk.own, fun k h => (by cases hnew.symm.trans h), hflagt, fun h => absurd h hv⟩
    · next e => exact (hi.known u x hx).keep { st.setCall t call with maps := m } id (hflag u e) x.noticed
  · rw [hmark, ← hi.pending k hp]
    refine (pending_setCall hy call k).trans ?_
    split
    · next e =>
      rw [hnew, St.Pending, e, hy]
      exact iff_of_false (by simp) fun h => hold k h hp
    · rfl

theorem thread_notice {st : St} {k : Creation} {u : Int32} {x : Thread} (hx : (st.notice k).thread u = some x) :
    ∃ z n, st.thread u = some z ∧ x = { z with noticed := n } := by
  simp only [St.notice, Function.update_apply] at hx
  split at hx
  · next e =>
    obtain ⟨z, hz, rfl⟩ := Option.map_eq_some_iff.mp hx
    split
    · exact ⟨z, true, e ▸ hz, rfl⟩
    · exact ⟨z, z.noticed, e ▸ hz, rfl⟩
  · exact ⟨x, x.noticed, hx, rfl⟩

/-- The probe of a creation runs in `t`, when its call is over. -/
theorem notice_inv {st : St} (hi : Inv f st) {t : Int32} {y : Thread} (hy : st.thread t = some y) {k : Creation}
    (hk : y.creating t = some k) (hp : Passes f k.parent) {call : Call}
    (hnew : { y with call := call }.creating t = none) (hv : call ≠ .vforkChild)
    (hpthread : call.inPthread = true → y.call.inPthread = true) (hroom : st.maps.child.HasRoom k.child)
    {m : Maps} (hm : m = childCreate k.kind.type k.child k.parent (y.current t) st.maps) :
    Inv f ({ st.setCall t call with maps := m }.notice k) := by
  obtain ⟨hl, hflag, hrb⟩ := childCreate_spec (y.current_reserve t) hroom k.kind.type k.parent
  rw [← hm] at hl hflag hrb
  have ht := hi.known t y hy
  have hpending : ∀ k', k'.prober = t → (st.Pending k' ↔ k' = k) := by
    intro k' e
    rw [St.Pending, e, hy, Option.bind_some, hk, Option.some.injEq]
    exact eq_comm
  have hset : ∀ c, ({ st.setCall t call with maps := m } : St).mark c = st.mark c := fun c => mark_setCall st t call c
  have hmark : st.mark k.child = some (some k, false) :=
    (hi.pending k hp).mp ((hpending k (ht.prober hk)).mpr rfl)
  have hb : Booked (st.setCall t call) := hi.booked.congr (mark_setCall st t call) rfl rfl rfl rfl
  refine ⟨hb.notice ((hset _).trans hmark) hl hrb, fun u x hx => ?_, fun k' hp' => ?_⟩
  · obtain ⟨z, n, hz, rfl⟩ := thread_notice hx
    have hsame : m.pthreadCreateEnable.lookup u = st.maps.pthreadCreateEnable.lookup u := by rw [hflag]
    simp only [St.setCall, Function.update_apply] at hz
    split at hz
    · subst u
      rw [hy] at hz
      cases hz
      refine ⟨ht.pos, ht.tids, ht.own, fun k h => (by cases hnew.symm.trans h), fun h hg => ?_,
        fun h => absurd h hv⟩
      exact hsame.trans (ht.enabled (hpthread h) hg)
    · exact (hi.known u z hz).keep ({ st.setCall t call with maps := m }.notice k) id hsame n
  · rw [pending_notice, mark_notice, hset]
    refine (pending_setCall hy call k').trans ?_
    by_cases e : k' = k
    · subst e
      rw [if_pos (ht.prober hk), hnew, if_pos ⟨hmark, rfl⟩]
      simp
    · have hold : (if k'.prober = t then { y with call := call }.creating t = some k' else st.Pending k') ↔
          st.Pending k' := by
        split
        · next ht' =>
          rw [hnew, hpending k' ht']
          exact iff_of_false (by simp) e
        · rfl
      rw [hold, hi.pending k' hp']
      split
      · next h =>
        rw [h.1]
        simp [Ne.symm e]
      · rfl

/-- What is pending of a creation is so in its caller, or in the child of a vfork. -/
theorem pending_create {st : St} {t : Int32} {y : Thread} (hy : st.thread t = some y)
    (hold : y.creating t = none) {k : Creation} (hparent : k.parent = t) (hfresh : st.thread k.child = none)
    {call childCall : Call} {tgid realParent : Int32}
    (hkind : childCall = .run ∧ k.kind ≠ .vfork ∧ { y with call := call }.creating t = some k ∨
      childCall = .vforkChild ∧ k.kind = .vfork ∧ realParent = t ∧ { y with call := call }.creating t = none)
    {k' : Creation} (hp : Passes f k'.parent) :
    ((st.setCall t call).create f k tgid realParent childCall).Pending k' ↔ k' = k ∨ st.Pending k' := by
  have hne : k.child ≠ t := fun e => by rw [e, hy] at hfresh; cases hfresh
  by_cases ec : k'.prober = k.child
  · have hnone : ¬ st.Pending k' := fun h => by rw [St.Pending, ec, hfresh] at h; cases h
    simp only [St.Pending, St.create, Function.update_apply, ec, if_true, Option.bind_some] at hnone ⊢
    rw [or_iff_left hnone]
    rcases hkind with ⟨rfl, hk, -⟩ | ⟨rfl, -⟩
    · refine iff_of_false (fun h => (by cases h)) fun h => ?_
      subst h
      rw [Creation.prober, if_neg hk, hparent] at ec
      exact hne ec.symm
    · refine ⟨fun h => ?_, fun h => ?_⟩
      · simp only [Thread.creating, Option.ite_none_right_eq_some, Option.some.injEq] at h
        exact h.2.symm
      · subst h
        exact if_pos hp
  · have hset : ((st.setCall t call).create f k tgid realParent childCall).Pending k' ↔
        (st.setCall t call).Pending k' := by
      simp only [St.Pending, St.create, Function.update_of_ne ec]
    rw [hset, pending_setCall hy]
    by_cases et : k'.prober = t
    · have hnone : ¬ st.Pending k' := fun h => by rw [St.Pending, et, hy] at h; cases hold.symm.trans h
      rw [if_pos et, or_iff_left hnone]
      rcases hkind with ⟨-, -, hc⟩ | ⟨-, hk, -, hc⟩
      · rw [hc, Option.some.injEq, eq_comm]
      · rw [hc]
        refine iff_of_false (fun h => (by cases h)) fun h => ?_
        subst h
        rw [Creation.prober, if_pos hk] at et
        exact hne et
    · rw [if_neg et, or_iff_right]
      intro h
      subst h
      by_cases hk : k'.kind = .vfork
      · exact ec (if_pos hk)
      · exact et ((if_neg hk).trans hparent)

/-- `t` makes a child. The probe of the creation runs in `t`, or in the child if that is
    one of vfork. -/
theorem create_inv {st : St} (hi : Inv f st) {t : Int32} {y : Thread} (hy : st.thread t = some y)
    (hold : y.creating t = none) {k : Creation} (hparent : k.parent = t) (hfresh : st.thread k.child = none)
    (hpos : 0 < k.child) {call childCall : Call} {tgid realParent : Int32}
    (hkind : childCall = .run ∧ k.kind ≠ .vfork ∧ { y with call := call }.creating t = some k ∨
      childCall = .vforkChild ∧ k.kind = .vfork ∧ realParent = t ∧ { y with call := call }.creating t = none)
    (hv : call ≠ .vforkChild) (hpthread : call.inPthread = true → y.call.inPthread = true)
    (htgid : Passes f k.parent → tgid ≠ f.ignoreTgid)
    (hseen : k.kind ≠ .vfork → Passes f k.parent →
      y.tgid ≠ f.ignoreTgid ∧ (k.kind = .pthread → f.targetPid ≠ -1)) :
    Inv f ((st.setCall t call).create f k tgid realParent childCall) := by
  have ht := hi.known t y hy
  have hne : k.child ≠ t := fun e => by rw [e, hy] at hfresh; cases hfresh
  have hset : (st.setCall t call).thread k.child = none := (Function.update_of_ne hne ..).trans hfresh
  have hb : Booked (st.setCall t call) := hi.booked.congr (mark_setCall st t call) rfl rfl rfl rfl
  refine ⟨hb.create hset tgid realParent childCall, fun u x hx => ?_, fun k' hp' => ?_⟩
  · simp only [St.create, Function.update_apply] at hx
    split at hx
    · subst u
      cases hx
      refine ⟨hpos, List.mem_cons_self, fun k' h => ?_, fun k' h hp' => ?_, fun h => ?_, fun h => ?_⟩
      · simp only [Option.ite_none_right_eq_some, Option.some.injEq] at h
        obtain ⟨hp, rfl⟩ := h
        exact ⟨rfl, hp, htgid hp⟩
      · rcases hkind with ⟨rfl, -⟩ | ⟨rfl, hk, -⟩
        · cases h
        · simp only [Thread.creating, Option.ite_none_right_eq_some, Option.some.injEq] at h
          obtain ⟨hp, rfl⟩ := h
          exact ⟨htgid hp, fun hk' => by rw [hk] at hk'; cases hk'⟩
      · rcases hkind with ⟨rfl, -⟩ | ⟨rfl, -⟩ <;> cases h
      · rcases hkind with ⟨rfl, -⟩ | ⟨rfl, hk, rfl, -⟩
        · cases h
        · rw [hparent, show k = ⟨.vfork, realParent, k.child⟩ from Creation.ext hk hparent rfl]
    · simp only [St.setCall, Function.update_apply] at hx
      split at hx
      · subst u
        rw [hy] at hx
        cases hx
        refine ⟨ht.pos, List.mem_cons_of_mem _ ht.tids, ht.own, fun k' h hp' => ?_,
          fun h => ht.enabled (hpthread h), fun h => absurd h hv⟩
        rcases hkind with ⟨-, hk, hc⟩ | ⟨-, -, -, hc⟩
        · cases hc.symm.trans h
          exact hseen hk hp'
        · cases hc.symm.trans h
      · exact (hi.known u x hx).keep ((st.setCall t call).create f k tgid realParent childCall)
          (List.mem_cons_of_mem _) rfl x.noticed
  · have hmark : st.mark k.child = none := by rw [St.mark, hfresh]; rfl
    rw [pending_create hy hold hparent hfresh hkind hp', mark_create, mark_setCall, hi.pending k' hp']
    by_cases e : k' = k
    · subst e
      rw [if_pos rfl, if_pos hp']
      simp
    · simp only [e, false_or]
      split
      · next ec =>
        rw [ec, hmark]
        split <;> simp [Ne.symm e]
      · rfl

theorem settled_of_quiet {st : St} (hi : Inv f st) {t : Int32} {dead : Int32 → Bool} {reaper : Int32}
    (hq : Quiet f st t dead reaper) : Settled st t dead where
  own c k n hm := by
    obtain ⟨x, hx, ho, -⟩ := mark_eq_some.mp hm
    exact ((hi.known c x hx).own k ho).1
  noticed k n hm := by
    obtain ⟨x, hx, ho, rfl⟩ := mark_eq_some.mp hm
    exact hq.1 x hx (by simp [ho])
  others u k n hd hu hm := by
    obtain ⟨x, hx, ho, -⟩ := mark_eq_some.mp hm
    simp [((hq.2 u (hi.known u x hx).tids x hx).1 hd hu).1] at ho

theorem pending_die (st : St) (dead : Int32 → Bool) (reaper : Int32) (k : Creation) :
    (st.die dead reaper).Pending k ↔ ¬ dead k.prober = true ∧ st.Pending k := by
  simp only [St.Pending, St.die]
  split
  · next hd => exact iff_of_false (by simp) fun h => h.1 hd
  · next hd =>
    rcases st.thread k.prober with _ | x
    · simp
    · rw [and_iff_right hd]
      show (if dead x.realParent = true then { x with realParent := reaper } else x).creating k.prober = some k ↔ _
      split <;> rfl

/-- A thread exits, and those of `dead` end with it. -/
theorem die_inv {st : St} (hi : Inv f st) {t : Int32} {y : Thread} (hy : st.thread t = some y)
    (hrun : y.creating t = none) {dead : Int32 → Bool} (ht : dead t = true) {reaper : Int32}
    (hq : Quiet f st t dead reaper) (status : UInt64) :
    Inv f { st.die dead reaper with maps := noteExit f (y.current t) status st.maps } := by
  have hs := settled_of_quiet hi hq
  have hignored : y.tgid = f.ignoreTgid → st.maps.child.lookup t = none := by
    intro hg
    rw [hi.booked.entry, St.mark, hy]
    rcases ho : y.origin with _ | k
    · simp [entryOf, ho]
    · exact absurd hg ((hi.known t y hy).own k ho).2.2
  obtain ⟨hl, hflag, own, hstatus, hrb⟩ := noteExit_spec (y.current_reserve t) hignored status
  refine ⟨hi.booked.die ht hs hl hstatus hrb reaper, fun u x hx => ?_, fun k hp => ?_⟩
  · simp only [St.die] at hx
    split at hx
    · cases hx
    · obtain ⟨z, hz, rfl⟩ := Option.map_eq_some_iff.mp hx
      have hk := hi.known u z hz
      have henabled := hk.enabled
      rw [← hflag] at henabled
      split
      · next hd =>
        refine ⟨hk.pos, hk.tids, hk.own, hk.seen, henabled, fun hv => ?_⟩
        -- The new parent of a child of vfork passes as little as the old one.
        obtain ⟨hold, hnew⟩ := (hq.2 u hk.tids z hz).2 hv hd
        exact (hk.vforked hv).trans ((if_neg hold).trans (if_neg hnew).symm)
      · exact ⟨hk.pos, hk.tids, hk.own, hk.seen, henabled, hk.vforked⟩
  · refine (pending_die st dead reaper k).trans ((and_congr_right' (hi.pending k hp)).trans ?_)
    refine Iff.trans ?_ (iff_of_eq (congrArg (· = some (some k, false)) (mark_die st dead reaper k.child))).symm
    by_cases hm : st.mark k.child = some (some k, false)
    · have hprober : ¬ dead k.prober = true := by
        intro hd
        obtain ⟨x, hx, hc⟩ := Option.bind_eq_some_iff.mp ((hi.pending k hp).mpr hm)
        by_cases e : k.prober = t
        · rw [e, hy] at hx
          cases hx
          rw [e, hrun] at hc
          cases hc
        · exact ((hq.2 k.prober (hi.known _ x hx).tids x hx).1 hd e).2 k hc hp
      rw [if_neg (hs.alive hm)]
      exact and_iff_right hprober
    · refine iff_of_false (fun h => hm h.2) fun h => ?_
      split at h
      · cases h
      · exact hm h

/-- The filter of the probes. -/
theorem passes_iff {t : Int32} : t = f.targetPid ∨ f.targetPid = -1 ↔ Passes f t := by
  rw [Passes, or_comm, eq_comm (a := t)]

/-- The call of `t` is over, and its probe has nothing to enter. -/
theorem silent_inv {st : St} (hi : Inv f st) {t : Int32} {y : Thread} (hy : st.thread t = some y) {k : Creation}
    (hnone : ¬ (0 < k.child ∧ Passes f k.parent)) (hold : y.creating t = none ∨ y.creating t = some k) {call : Call}
    (hnew : { y with call := call }.creating t = none) (hv : call ≠ .vforkChild)
    (henabled : call.inPthread = true → y.tgid ≠ f.ignoreTgid →
      st.maps.pthreadCreateEnable.lookup t = some true) :
    Inv f ({ st.setCall t call with maps := st.maps }.notice k) := by
  have hmark : st.mark k.child ≠ some (some k, false) := by
    intro hm
    obtain ⟨x, hx, ho, -⟩ := mark_eq_some.mp hm
    have hk := hi.known _ x hx
    exact hnone ⟨hk.pos, (hk.own k ho).2.1⟩
  rw [notice_self (mark_setCall st t call k.child ▸ hmark)]
  refine call_inv hi hy (fun k' hk' hp => ?_) hnew hv rfl rfl (fun _ _ => rfl) henabled
  rcases hold with h | h
  · cases h.symm.trans hk'
  · cases h.symm.trans hk'
    have hpending : st.Pending k := by rw [St.Pending, (hi.known t y hy).prober h, hy]; exact h
    exact hmark ((hi.pending k hp).mp hpending)

theorem fork_return_inv {st : St} (hi : Inv f st) {t ret : Int32} {y : Thread} (hy : st.thread t = some y)
    (hcall : y.call = .fork ret) (ho : Orderly f (.forkReturn t) st) (hroom : st.maps.child.HasRoom ret) :
    Inv f ({ st.setCall t .run with maps := forkExit f (y.current t) ret st.maps }.notice ⟨.fork, t, ret⟩) := by
  have hc : y.creating t = if 0 < ret then some ⟨.fork, t, ret⟩ else none := by rw [Thread.creating, hcall]
  by_cases h : 0 < ret ∧ Passes f t
  · obtain ⟨hret, hp⟩ := h
    rw [if_pos hret] at hc
    obtain ⟨htgid, -⟩ := (hi.known t y hy).seen _ hc hp
    have hexit : forkExit f (y.current t) ret st.maps = childCreate 4 ret t (y.current t) st.maps :=
      if_pos ⟨htgid, (Int32.ne_of_lt hret).symm, passes_iff.mpr hp⟩
    exact notice_inv hi hy hc hp rfl (by decide) (fun h => (by cases h)) hroom hexit
  · have hexit : forkExit f (y.current t) ret st.maps = st.maps := by
      refine if_neg fun hf => ?_
      obtain ⟨htgid, -, hp⟩ := hf
      exact ho y hy (hc.trans (if_neg fun hr => h ⟨hr, passes_iff.mp hp⟩)) htgid (passes_iff.mp hp)
    have hold : y.creating t = none ∨ y.creating t = some ⟨.fork, t, ret⟩ := by
      rw [hc]
      split
      · exact .inr rfl
      · exact .inl rfl
    rw [hexit]
    exact silent_inv (k := ⟨.fork, t, ret⟩) hi hy h hold rfl (by decide) nofun

theorem vfork_return_inv {st : St} (hi : Inv f st) {t : Int32} {y : Thread} (hy : st.thread t = some y)
    (hcall : y.call = .vforkChild) (hroom : st.maps.child.HasRoom t) :
    Inv f ({ st.setCall t .run with maps := vforkExit f (y.current t) y.realParent st.maps }.notice
      ⟨.vfork, y.realParent, t⟩) := by
  have hk := hi.known t y hy
  have hc : y.creating t = y.origin := by rw [Thread.creating, hcall]
  rw [hk.vforked hcall] at hc
  by_cases hp : Passes f y.realParent
  · rw [if_pos hp] at hc
    obtain ⟨-, -, htgid⟩ := hk.own _ ((hk.vforked hcall).trans (if_pos hp))
    have hexit : vforkExit f (y.current t) y.realParent st.maps =
        childCreate 6 t y.realParent (y.current t) st.maps :=
      if_pos ⟨htgid, passes_iff.mpr hp⟩
    exact notice_inv hi hy hc hp rfl (by decide) (fun h => (by cases h)) hroom hexit
  · have hexit : vforkExit f (y.current t) y.realParent st.maps = st.maps :=
      if_neg fun hf => hp (passes_iff.mp hf.2)
    rw [hexit]
    exact silent_inv hi hy (fun h => hp h.2) (.inl (hc.trans (if_neg hp))) rfl (by decide) nofun

theorem vfork_failure_inv {st : St} (hi : Inv f st) {t : Int32} {y : Thread} (hy : st.thread t = some y)
    (hcall : y.call = .vfork (-1)) (ho : Orderly f (.vforkReturn t) st) :
    Inv f { st.setCall t .run with maps := vforkExit f (y.current t) y.realParent st.maps } := by
  have hexit : vforkExit f (y.current t) y.realParent st.maps = st.maps :=
    if_neg fun hf => ho y hy hcall hf.1 (passes_iff.mp hf.2)
  rw [hexit]
  refine call_inv hi hy (fun k h => ?_) rfl (by decide) rfl rfl (fun _ _ => rfl) nofun
  rw [Thread.creating, hcall] at h
  cases h

theorem clone3_exit_inv {st : St} (hi : Inv f st) {t ret : Int32} {y : Thread} (hy : st.thread t = some y)
    (hcall : y.call = .clone3 ret) (hroom : st.maps.child.HasRoom ret) :
    Inv f ({ st.setCall t .pthread with maps := sysExitClone3 f (y.current t) ret st.maps }.notice
      ⟨.pthread, t, ret⟩) := by
  have hk := hi.known t y hy
  have hc : y.creating t = if 0 < ret then some ⟨.pthread, t, ret⟩ else none := by rw [Thread.creating, hcall]
  have henabled := hk.enabled (by rw [hcall]; rfl)
  by_cases h : 0 < ret ∧ Passes f t
  · obtain ⟨hret, hp⟩ := h
    rw [if_pos hret] at hc
    obtain ⟨htgid, htarget⟩ := hk.seen _ hc hp
    have hpid : t = f.targetPid := (hp.resolve_left (htarget rfl)).symm
    have hexit : sysExitClone3 f (y.current t) ret st.maps = childCreate 8 ret t (y.current t) st.maps := by
      refine (sysExitClone3_enabled (y.current t) htgid hpid (henabled htgid) ret).trans ?_
      exact if_neg (Int32.not_le.mpr hret)
    exact notice_inv hi hy hc hp rfl (by decide) (fun _ => by rw [hcall]; rfl) hroom hexit
  · have hexit : sysExitClone3 f (y.current t) ret st.maps = st.maps := by
      unfold sysExitClone3
      split
      · next hf =>
        -- no thread has the pid -1 that the second comparison asks for
        have hpos : t ≠ -1 := fun e => absurd hk.pos (by rw [e]; decide)
        have hp : Passes f t := .inr (hf.2.resolve_right hpos).symm
        split
        · exact if_pos (Int32.not_lt.mp fun hr => h ⟨hr, hp⟩)
        · rfl
      · rfl
    have hold : y.creating t = none ∨ y.creating t = some ⟨.pthread, t, ret⟩ := by
      rw [hc]
      split
      · exact .inr rfl
      · exact .inl rfl
    rw [hexit]
    exact silent_inv (k := ⟨.pthread, t, ret⟩) hi hy h hold rfl (by decide) fun _ => henabled

theorem step_inv {e : Ev} {st st' : St} (hi : Inv f st) (ho : Orderly f e st) (h : step f e st = some st') :
    Inv f st' := by
  cases e with
  | fork t c =>
    obtain ⟨x, hx, h⟩ := Option.bind_eq_some_iff.mp h
    simp only [Option.ite_none_right_eq_some, Option.some.injEq, Option.isNone_iff_eq_none] at h
    obtain ⟨⟨hcall, hfresh, hpos⟩, rfl⟩ := h
    have hold : x.creating t = none := by rw [Thread.creating, hcall]
    exact create_inv (k := ⟨.fork, t, c⟩) hi hx hold rfl hfresh hpos (.inl ⟨rfl, nofun, if_pos hpos⟩)
      (by simp) nofun (fun hp => (ho x hx hp).2) fun _ hp => ⟨(ho x hx hp).1, nofun⟩
  | forkFails t =>
    obtain ⟨x, hx, h⟩ := Option.bind_eq_some_iff.mp h
    simp only [Option.ite_none_right_eq_some, Option.some.injEq] at h
    obtain ⟨hcall, rfl⟩ := h
    exact call_inv hi hx (by simp [Thread.creating, hcall]) rfl (by simp) rfl rfl (fun _ _ => rfl) nofun
  | forkReturn t =>
    obtain ⟨x, hx, h⟩ := Option.bind_eq_some_iff.mp h
    split at h
    · next ret hcall =>
      simp only [Option.ite_none_right_eq_some, Option.some.injEq] at h
      obtain ⟨hroom, rfl⟩ := h
      exact fork_return_inv hi hx hcall ho hroom
    · cases h
  | vfork t c =>
    obtain ⟨x, hx, h⟩ := Option.bind_eq_some_iff.mp h
    simp only [Option.ite_none_right_eq_some, Option.some.injEq, Option.isNone_iff_eq_none] at h
    obtain ⟨⟨hcall, hfresh, hpos⟩, rfl⟩ := h
    have hold : x.creating t = none := by rw [Thread.creating, hcall]
    exact create_inv (k := ⟨.vfork, t, c⟩) hi hx hold rfl hfresh hpos (.inr ⟨rfl, rfl, rfl, rfl⟩)
      (by simp) nofun ho fun hk => absurd rfl hk
  | vforkFails t =>
    obtain ⟨x, hx, h⟩ := Option.bind_eq_some_iff.mp h
    simp only [Option.ite_none_right_eq_some, Option.some.injEq] at h
    obtain ⟨hcall, rfl⟩ := h
    exact call_inv hi hx (by simp [Thread.creating, hcall]) rfl (by simp) rfl rfl (fun _ _ => rfl) nofun
  | vforkReturn t =>
    obtain ⟨x, hx, h⟩ := Option.bind_eq_some_iff.mp h
    dsimp only at h
    simp only [Option.ite_none_right_eq_some] at h
    obtain ⟨hroom, h⟩ := h
    split at h
    · next hcall =>
      cases h
      exact vfork_return_inv hi hx hcall hroom
    · next ret hcall =>
      simp only [Option.ite_none_right_eq_some, Option.some.injEq] at h
      obtain ⟨rfl, rfl⟩ := h
      exact vfork_failure_inv hi hx hcall ho
    · cases h
  | vforkResume t =>
    obtain ⟨x, hx, h⟩ := Option.bind_eq_some_iff.mp h
    split at h
    · next ret hcall =>
      simp only [Option.ite_none_right_eq_some, Option.some.injEq] at h
      obtain ⟨-, rfl⟩ := h
      exact call_inv hi hx (by simp [Thread.creating, hcall]) rfl (by simp) rfl rfl (fun _ _ => rfl) nofun
    · cases h
  | pthreadCreate t =>
    obtain ⟨x, hx, h⟩ := Option.bind_eq_some_iff.mp h
    simp only [Option.ite_none_right_eq_some, Option.some.injEq] at h
    obtain ⟨⟨hcall, hroom⟩, rfl⟩ := h
    obtain ⟨hc, hrb, hothers, henabled⟩ := pthreadCreateEnter_spec f (x.current t) hroom
    exact call_inv hi hx (by simp [Thread.creating, hcall]) rfl (by simp) hc hrb hothers fun _ => henabled
  | clone3 t c =>
    obtain ⟨x, hx, h⟩ := Option.bind_eq_some_iff.mp h
    simp only [Option.ite_none_right_eq_some, Option.some.injEq, Option.isNone_iff_eq_none] at h
    obtain ⟨⟨hcall, hfresh, hpos⟩, rfl⟩ := h
    have hold : x.creating t = none := by rw [Thread.creating, hcall]
    exact create_inv (k := ⟨.pthread, t, c⟩) hi hx hold rfl hfresh hpos (.inl ⟨rfl, nofun, if_pos hpos⟩)
      (by simp) (fun _ => by rw [hcall]; rfl) (fun hp => (ho x hx hp).1)
      fun _ hp => ⟨(ho x hx hp).1, fun _ => (ho x hx hp).2⟩
  | clone3Fails t =>
    obtain ⟨x, hx, h⟩ := Option.bind_eq_some_iff.mp h
    simp only [Option.ite_none_right_eq_some, Option.some.injEq] at h
    obtain ⟨hcall, rfl⟩ := h
    exact call_inv hi hx (by simp [Thread.creating, hcall]) rfl (by simp) rfl rfl (fun _ _ => rfl)
      fun _ => (hi.known t x hx).enabled (by rw [hcall]; rfl)
  | clone3Exit t =>
    obtain ⟨x, hx, h⟩ := Option.bind_eq_some_iff.mp h
    split at h
    · next ret hcall =>
      simp only [Option.ite_none_right_eq_some, Option.some.injEq] at h
      obtain ⟨hroom, rfl⟩ := h
      exact clone3_exit_inv hi hx hcall hroom
    · cases h
  | pthreadReturn t =>
    obtain ⟨x, hx, h⟩ := Option.bind_eq_some_iff.mp h
    simp only [Option.ite_none_right_eq_some, Option.some.injEq] at h
    obtain ⟨hcall, rfl⟩ := h
    obtain ⟨hc, hrb, hothers⟩ := pthreadCreateExit_spec f (x.current t) st.maps
    exact call_inv hi hx (by simp [Thread.creating, hcall]) rfl (by simp) hc hrb hothers nofun
  | exit t reaper status =>
    obtain ⟨x, hx, h⟩ := Option.bind_eq_some_iff.mp h
    simp only [Option.ite_none_right_eq_some, Option.some.injEq] at h
    obtain ⟨hcall, rfl⟩ := h
    exact die_inv hi hx (by rw [Thread.creating, hcall]) (by simp) ho status
  | exitGroup t reaper status =>
    obtain ⟨x, hx, h⟩ := Option.bind_eq_some_iff.mp h
    simp only [Option.ite_none_right_eq_some, Option.some.injEq] at h
    obtain ⟨hcall, rfl⟩ := h
    exact die_inv hi hx (by rw [Thread.creating, hcall]) (by simp [St.group, hx]) (ho x hx) status

variable (f)

/-- In a run whose steps are orderly, the events are in pairs in every state. -/
theorem lifetimes_paired {start : List Existing} {st : St} (h : Run (step f) (Orderly f) (init start) st) :
    Paired f st :=
  (h.inv (P := Inv f) (init_inv f start) fun _ _ _ hi ho hs => step_inv hi ho hs).paired

/-! ## Thread 7 -/

def alone : St := init [⟨7, 7, 1, by decide⟩]

def St.events (st : St) : List (Int32 × Int32 × List UInt64) :=
  st.maps.keytimeRb.map fun e => (e.type, e.pid, e.info)

/-- It is the target and has a child of each kind, which exits. -/
theorem one_child_of_each_kind :
    ∃ st, Run (step ⟨7, -1⟩) (Orderly ⟨7, -1⟩) alone st ∧
      st.events = [(4, 7, [8]), (6, 7, [9]), (7, 7, [9]), (5, 7, [8]), (8, 7, [10]), (9, 7, [10])] ∧
      Paired ⟨7, -1⟩ st := by
  obtain ⟨st, hr, hs⟩ := run_of_execIf_any (step ⟨7, -1⟩) (Orderly ⟨7, -1⟩) alone
    [.fork 7 8, .forkReturn 7, .vfork 7 9, .vforkReturn 9, .exit 9 1 0, .vforkResume 7, .exit 8 1 0,
      .pthreadCreate 7, .clone3 7 10, .clone3Exit 7, .pthreadReturn 7, .exit 10 1 0]
    (fun st => decide (st.events =
      [(4, 7, [8]), (6, 7, [9]), (7, 7, [9]), (5, 7, [8]), (8, 7, [10]), (9, 7, [10])])) (by decide +kernel)
  exact ⟨st, hr, of_decide_eq_true hs, lifetimes_paired ⟨7, -1⟩ hr⟩

/-- A fork that fails: the event has -1 for the child. -/
theorem failed_fork_is_reported :
    ∃ st, Run (step .default) anyEvent alone st ∧ st.events = [(4, 7, [infoOf (-1)])] ∧ ¬ Paired .default st := by
  let k : Creation := ⟨.fork, 7, -1⟩
  obtain ⟨st, hr, hs⟩ := run_of_exec_any (step .default) alone [.forkFails 7, .forkReturn 7]
    (fun st => decide (st.events = [(4, 7, [infoOf (-1)])] ∧ st.created k < st.maps.keytimeRb.count k.enterEvent))
    (by decide +kernel)
  obtain ⟨he, hk⟩ := of_decide_eq_true hs
  refine ⟨st, hr, he, fun hp => ?_⟩
  have := hp.enter k
  omega

/-- A vfork that fails: the event has the caller for the child. -/
theorem failed_vfork_is_reported :
    ∃ st, Run (step .default) anyEvent alone st ∧ st.events = [(6, 1, [7])] ∧ ¬ Paired .default st := by
  let k : Creation := ⟨.vfork, 1, 7⟩
  obtain ⟨st, hr, hs⟩ := run_of_exec_any (step .default) alone [.vforkFails 7, .vforkReturn 7]
    (fun st => decide (st.events = [(6, 1, [7])] ∧ st.created k < st.maps.keytimeRb.count k.enterEvent))
    (by decide +kernel)
  obtain ⟨he, hk⟩ := of_decide_eq_true hs
  refine ⟨st, hr, he, fun hp => ?_⟩
  have := hp.enter k
  omega

/-- A child of fork that exits before the probe of its parent runs: it has no exit event,
    and its entry stays. -/
theorem early_exit_leaves_an_entry :
    ∃ st, Run (step ⟨7, -1⟩) anyEvent alone st ∧ st.events = [(4, 7, [8])] ∧
      st.thread 8 = none ∧ st.maps.child.lookup 8 = some ⟨4, 7⟩ ∧ ¬ Paired ⟨7, -1⟩ st := by
  obtain ⟨st, hr, hs⟩ := run_of_exec_any (step ⟨7, -1⟩) alone [.fork 7 8, .exit 8 7 0, .forkReturn 7]
    (fun st => decide (st.events = [(4, 7, [8])] ∧ (st.thread 8).isNone ∧ st.maps.child.lookup 8 = some ⟨4, 7⟩))
    (by decide +kernel)
  obtain ⟨he, hgone, hl⟩ := of_decide_eq_true hs
  have hgone := Option.isNone_iff_eq_none.mp hgone
  refine ⟨st, hr, he, hgone, hl, fun hp => ?_⟩
  obtain ⟨x, hx, -⟩ := hp.live 8 _ hl
  rw [hgone] at hx
  cases hx

/-- A thread that is made when there is no target. -/
theorem thread_is_not_reported :
    ∃ st, Run (step .default) anyEvent alone st ∧ st.events = [] ∧ ¬ Paired .default st := by
  let k : Creation := ⟨.pthread, 7, 8⟩
  obtain ⟨st, hr, hs⟩ := run_of_exec_any (step .default) alone
    [.pthreadCreate 7, .clone3 7 8, .clone3Exit 7, .pthreadReturn 7]
    (fun st => decide (st.events = [] ∧ st.maps.keytimeRb.count k.enterEvent +
      (if Passes .default k.parent ∧ st.Pending k then 1 else 0) ≠ st.created k)) (by decide +kernel)
  obtain ⟨he, hk⟩ := of_decide_eq_true hs
  exact ⟨st, hr, he, fun hp => hk (hp.enter k)⟩

/-- A thread that ends when another one calls exit_group: only the caller is reported. -/
theorem killed_thread_has_no_exit :
    ∃ st, Run (step ⟨7, -1⟩) anyEvent alone st ∧ st.events = [(8, 7, [8]), (3, 7, [0])] ∧
      st.exited ⟨.pthread, 7, 8⟩ = 1 ∧ ¬ Paired ⟨7, -1⟩ st := by
  let k : Creation := ⟨.pthread, 7, 8⟩
  obtain ⟨st, hr, hs⟩ := run_of_exec_any (step ⟨7, -1⟩) alone
    [.pthreadCreate 7, .clone3 7 8, .clone3Exit 7, .pthreadReturn 7, .exitGroup 7 1 0]
    (fun st => decide (st.events = [(8, 7, [8]), (3, 7, [0])] ∧ st.exited k = 1 ∧
      st.maps.keytimeRb.count k.exitEvent ≠ st.exited k)) (by decide +kernel)
  obtain ⟨he, hx, hk⟩ := of_decide_eq_true hs
  exact ⟨st, hr, he, hx, fun hp => hk (hp.exit k)⟩

end Ksight.ProcImage.KeytimeImage

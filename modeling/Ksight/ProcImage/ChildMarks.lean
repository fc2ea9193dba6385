/-
  Ksight.ProcImage.ChildMarks — what the events and the entries of children are compared
  with (src/process/proc_image/include/keytime_image.h).

  The mark of a thread is the creation it comes from, if its parent passed the filter, and
  whether the probe of that creation has run. `Booked` is the law in these terms: a
  creation without its enter event is a mark that is not noticed, and the entries are
  those of the marks that are. What a step does to threads is a birth, a notice or deaths
  (`Booked.create`, `Booked.notice`, `Booked.die`); what else it changes, the marks do not
  show.
-/

import Ksight.ProcImage.Children

namespace Ksight.ProcImage.KeytimeImage

/-- The creation a thread comes from, and whether its probe has run. -/
def St.mark (st : St) (c : Int32) : Option (Option Creation × Bool) :=
  (st.thread c).map fun x => (x.origin, x.noticed)

/-- What the map has of a thread. -/
def entryOf (m : Option Creation × Bool) : Option ChildInfo := if m.2 then m.1.map Creation.info else none

/-- The events and the entries say what the marks say. -/
structure Booked (st : St) : Prop where
  enter : ∀ k : Creation, st.maps.keytimeRb.count k.enterEvent +
    (if st.mark k.child = some (some k, false) then 1 else 0) = st.created k
  exit : ∀ k : Creation, st.maps.keytimeRb.count k.exitEvent = st.exited k
  entry : ∀ c, st.maps.child.lookup c = (st.mark c).bind entryOf

variable {f : Filter}

theorem childEvent_inj {type type' pid pid' c c' : Int32} (h : childEvent type pid c = childEvent type' pid' c') :
    type = type' ∧ pid = pid' ∧ c = c' := by
  simp only [childEvent, KeytimeEvent.mk.injEq, List.cons.injEq] at h
  obtain ⟨ht, hp, -, -, hc, -⟩ := h
  exact ⟨ht, hp, infoOf_inj hc⟩

theorem enterEvent_inj {k k' : Creation} (h : k.enterEvent = k'.enterEvent) : k = k' := by
  obtain ⟨ht, hp, hc⟩ := childEvent_inj h
  have hkind : k.kind = k'.kind := by
    revert ht
    cases k.kind <;> cases k'.kind <;> decide
  exact Creation.ext hkind hp hc

theorem exitEvent_inj {k k' : Creation} (h : k.exitEvent = k'.exitEvent) : k = k' := by
  obtain ⟨ht, hp, hc⟩ := childEvent_inj h
  have hkind : k.kind = k'.kind := by
    revert ht
    cases k.kind <;> cases k'.kind <;> decide
  exact Creation.ext hkind hp hc

theorem enter_ne_exit (k k' : Creation) : k.enterEvent ≠ k'.exitEvent := by
  intro h
  have ht : k.kind.type = k'.kind.type + 1 := congrArg KeytimeEvent.type h
  revert ht
  cases k.kind <;> cases k'.kind <;> decide

theorem enter_ne_status (k : Creation) : k.enterEvent.type ≠ 3 := by
  show k.kind.type ≠ 3
  cases k.kind <;> decide

theorem exit_ne_status (k : Creation) : k.exitEvent.type ≠ 3 := by
  show k.kind.type + 1 ≠ 3
  cases k.kind <;> decide

theorem count_status {own : List KeytimeEvent} (h : ∀ e ∈ own, e.type = 3) {e : KeytimeEvent} (he : e.type ≠ 3) :
    own.count e = 0 :=
  List.count_eq_zero.mpr fun hm => he (h e hm)

theorem mark_setCall (st : St) (t : Int32) (call : Call) (c : Int32) : (st.setCall t call).mark c = st.mark c := by
  simp only [St.mark, St.setCall, Function.update_apply]
  split
  · subst c
    rw [Option.map_map]
    rfl
  · rfl

theorem mark_create (st : St) (k : Creation) (tgid realParent : Int32) (call : Call) (c : Int32) :
    (st.create f k tgid realParent call).mark c =
      if c = k.child then some (if Passes f k.parent then some k else none, false) else st.mark c := by
  simp only [St.mark, St.create, Function.update_apply]
  split <;> rfl

theorem mark_notice (st : St) (k : Creation) (c : Int32) :
    (st.notice k).mark c =
      if st.mark c = some (some k, false) ∧ c = k.child then some (some k, true) else st.mark c := by
  by_cases e : c = k.child
  · subst c
    rcases hx : st.thread k.child with _ | x
    · simp [St.mark, St.notice, hx]
    · by_cases ho : x.origin = some k
      · rcases hn : x.noticed <;> simp [St.mark, St.notice, hx, ho, hn]
      · simp [St.mark, St.notice, hx, ho]
  · simp [St.mark, St.notice, e]

theorem mark_die (st : St) (dead : Int32 → Bool) (reaper c : Int32) :
    (st.die dead reaper).mark c = if dead c then none else st.mark c := by
  simp only [St.mark, St.die]
  split
  · rfl
  · rw [Option.map_map]
    congr 1
    funext x
    simp only [Function.comp_apply]
    split <;> rfl

theorem mark_eq_some {st : St} {c : Int32} {o : Option Creation} {n : Bool} :
    st.mark c = some (o, n) ↔ ∃ x, st.thread c = some x ∧ x.origin = o ∧ x.noticed = n := by
  simp [St.mark]

theorem origin_mark {st : St} {c : Int32} {k : Creation} :
    (st.thread c).bind Thread.origin = some k ↔ ∃ n, st.mark c = some (some k, n) := by
  rcases hx : st.thread c with _ | x <;> simp [St.mark, hx]

theorem Booked.congr {st st' : St} (h : Booked st) (hm : ∀ c, st'.mark c = st.mark c)
    (hc : st'.maps.child = st.maps.child) (hrb : st'.maps.keytimeRb = st.maps.keytimeRb)
    (hcr : st'.created = st.created) (hex : st'.exited = st.exited) : Booked st' where
  enter k := by rw [hrb, hm, hcr]; exact h.enter k
  exit k := by rw [hrb, hex]; exact h.exit k
  entry c := by rw [hc, hm]; exact h.entry c

/-- A child that comes to life has no entry yet. -/
theorem Booked.create {st : St} (h : Booked st) {k : Creation} (hk : st.thread k.child = none)
    (tgid realParent : Int32) (call : Call) : Booked (st.create f k tgid realParent call) := by
  have hmark : st.mark k.child = none := by rw [St.mark, hk]; rfl
  refine ⟨fun k' => ?_, h.exit, fun c => ?_⟩
  · have he := h.enter k'
    rw [mark_create]
    show st.maps.keytimeRb.count k'.enterEvent + _ = (if Passes f k.parent then _ else st.created) k'
    by_cases e : k' = k
    · subst e
      rw [if_pos rfl]
      rw [hmark, if_neg (by simp)] at he
      by_cases hp : Passes f k'.parent
      · simp only [hp, if_true, Function.update_self]
        omega
      · simp only [hp, if_false]
        simpa using he
    · have hcr : (if Passes f k.parent then Function.update st.created k (st.created k + 1) else st.created) k' =
          st.created k' := by
        split
        · exact Function.update_of_ne e ..
        · rfl
      rw [hcr, ← he]
      by_cases ec : k'.child = k.child
      · rw [if_pos ec, ec, hmark, if_neg, if_neg (by simp)]
        split
        · simpa using Ne.symm e
        · simp
      · rw [if_neg ec]
  · show st.maps.child.lookup c = _
    rw [h.entry, mark_create]
    split
    · subst c
      rw [hmark]
      rfl
    · rfl

/-- The probe of a creation enters its child and reports it. -/
theorem Booked.notice {st : St} (h : Booked st) {k : Creation} (hk : st.mark k.child = some (some k, false))
    {m : Maps} (hl : ∀ c, m.child.lookup c = if c = k.child then some k.info else st.maps.child.lookup c)
    (hrb : m.keytimeRb = st.maps.keytimeRb ++ [k.enterEvent]) : Booked ({ st with maps := m }.notice k) := by
  have hmark : ∀ c, ({ st with maps := m }.notice k).mark c =
      if c = k.child then some (some k, true) else st.mark c := by
    intro c
    rw [mark_notice]
    by_cases e : c = k.child
    · subst c
      rw [if_pos rfl]
      exact if_pos ⟨hk, rfl⟩
    · rw [if_neg e]
      exact if_neg fun h => e h.2
  refine ⟨fun k' => ?_, fun k' => ?_, fun c => ?_⟩
  · have he := h.enter k'
    show m.keytimeRb.count k'.enterEvent + _ = st.created k'
    rw [hmark, hrb, List.count_append, List.count_singleton, ← he]
    by_cases e : k' = k
    · subst e
      simp [hk]
    · have hne : ¬ k.enterEvent = k'.enterEvent := fun h => e (enterEvent_inj h).symm
      simp only [beq_iff_eq, hne, if_false, Nat.add_zero]
      by_cases ec : k'.child = k.child
      · simp [ec, hk, Ne.symm e]
      · rw [if_neg ec]
  · show m.keytimeRb.count k'.exitEvent = st.exited k'
    rw [hrb, List.count_append, List.count_singleton, ← h.exit]
    simp [enter_ne_exit]
  · show m.child.lookup c = _
    rw [hl, hmark, h.entry]
    split <;> rfl

/-- The threads that end when `t` exits owe no event but the exit of `t`. -/
structure Settled (st : St) (t : Int32) (dead : Int32 → Bool) : Prop where
  own : ∀ c k n, st.mark c = some (some k, n) → k.child = c
  noticed : ∀ k n, st.mark t = some (some k, n) → n = true
  others : ∀ u k n, dead u = true → u ≠ t → st.mark u ≠ some (some k, n)

theorem Settled.alive {st : St} {t : Int32} {dead : Int32 → Bool} (hs : Settled st t dead) {k : Creation}
    (hm : st.mark k.child = some (some k, false)) : ¬ dead k.child = true := by
  intro hd
  by_cases e : k.child = t
  · cases hs.noticed k false (e ▸ hm)
  · exact hs.others k.child k false hd e hm

/-- What the exit of `t` reports is the creation it comes from. -/
theorem Booked.report {st : St} (h : Booked st) {t : Int32} {dead : Int32 → Bool} (hs : Settled st t dead) :
    (st.maps.child.lookup t).map (fun info => childEvent (info.type + 1) info.ppid t) =
      ((st.thread t).bind Thread.origin).map Creation.exitEvent := by
  rw [h.entry]
  rcases hx : st.thread t with _ | ⟨tgid, realParent, call, _ | k, n⟩
  · simp [St.mark, hx]
  · simp [St.mark, hx, entryOf]
  · have hm : st.mark t = some (some k, n) := by rw [St.mark, hx]; rfl
    rw [hm, hs.noticed k n hm, ← hs.own t k n hm]
    rfl

theorem count_enter (o : Option Creation) (k : Creation) :
    (o.map Creation.exitEvent).toList.count k.enterEvent = 0 := by
  rcases o with _ | k'
  · rfl
  · simp [(enter_ne_exit k k').symm]

theorem count_exit (o : Option Creation) (k : Creation) :
    (o.map Creation.exitEvent).toList.count k.exitEvent = if o = some k then 1 else 0 := by
  rcases o with _ | k'
  · rfl
  · by_cases e : k' = k
    · simp [e]
    · have hne : ¬ k'.exitEvent = k.exitEvent := fun h => e (exitEvent_inj h)
      simp [hne, e]

/-- The exit of a thread reports it, if it has an entry, and the others that end with it
    have none. -/
theorem Booked.die {st : St} (h : Booked st) {t : Int32} {dead : Int32 → Bool} (ht : dead t = true)
    (hs : Settled st t dead) {m : Maps} {own : List KeytimeEvent}
    (hl : ∀ c, m.child.lookup c = if c = t then none else st.maps.child.lookup c) (hstatus : ∀ e ∈ own, e.type = 3)
    (hrb : m.keytimeRb = st.maps.keytimeRb ++ own ++
      ((st.maps.child.lookup t).map fun info => childEvent (info.type + 1) info.ppid t).toList) (reaper : Int32) :
    Booked { st.die dead reaper with maps := m } := by
  have hmark : ∀ c, ({ st.die dead reaper with maps := m } : St).mark c = if dead c then none else st.mark c :=
    fun c => mark_die st dead reaper c
  have hcount : ∀ e : KeytimeEvent, e.type ≠ 3 → m.keytimeRb.count e = st.maps.keytimeRb.count e +
      (((st.thread t).bind Thread.origin).map Creation.exitEvent).toList.count e := by
    intro e he
    rw [hrb, h.report hs, List.count_append, List.count_append, count_status hstatus he]
    rfl
  refine ⟨fun k => ?_, fun k => ?_, fun c => ?_⟩
  · show m.keytimeRb.count k.enterEvent + _ = st.created k
    rw [hcount _ (enter_ne_status k), count_enter, Nat.add_zero, hmark, ← h.enter k]
    by_cases hd : dead k.child = true
    · rw [if_pos hd, if_neg (by simp), if_neg fun hm => hs.alive hm hd]
    · rw [if_neg hd]
  · show m.keytimeRb.count k.exitEvent =
      st.exited k + if dead k.child = true ∧ (st.thread k.child).bind Thread.origin = some k then 1 else 0
    rw [hcount _ (exit_ne_status k), count_exit, h.exit k]
    congr 1
    refine if_congr ⟨fun e => ?_, fun ⟨hd, ho⟩ => ?_⟩ rfl rfl
    · obtain ⟨n, hm⟩ := origin_mark.mp e
      rw [hs.own t k n hm]
      exact ⟨ht, e⟩
    · obtain ⟨n, hm⟩ := origin_mark.mp ho
      by_cases ec : k.child = t
      · exact ec ▸ ho
      · exact absurd hm (hs.others k.child k n hd ec)
  · show m.child.lookup c = _
    rw [hl, hmark, h.entry]
    by_cases ec : c = t
    · rw [if_pos ec, ec, if_pos ht]
      rfl
    · rw [if_neg ec]
      by_cases hd : dead c = true
      · rw [if_pos hd]
        rcases hm : st.mark c with _ | ⟨_ | k, n⟩
        · rfl
        · simp [entryOf]
        · exact absurd hm (hs.others c k n hd ec)
      · rw [if_neg hd]

end Ksight.ProcImage.KeytimeImage

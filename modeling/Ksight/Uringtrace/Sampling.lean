/-
  Ksight.Uringtrace.Sampling — which events the sampling keeps
  (src/net/uringtrace/bpf/uringtrace.bpf.c: `__filter_event`, which every handler of an event
  about a request asks).

  - `skipped_iff`: in every run the value `sampling` stays what was set at the start, and the
    events that are skipped are those whose request the filter skips under it. So the events of a
    request are kept or skipped together.
  - `card_kept`: how many requests are kept. Of the addresses that share their upper half and
    are aligned to `2 ^ k` bytes, those are kept whose hash is a multiple of 10. The hash is
    even where the address is; so from `k = 1` on one in five is kept, and not one in ten.
-/

import Ksight.Lib.OddHash
import Ksight.Uringtrace.Counts

namespace Ksight.Uringtrace

open Ksight.Lib

/-- The event of the handler is not sampled. -/
def Handler.skips (sampling : Int64) (h : Handler) : Bool := h.req.any (filterEvent sampling)

/-- What a handler at a place has asked the filter. -/
def Asked (sampling : Int64) (h : Handler) : Pc → Prop
  | .total => True
  | .filter req => h.req = some req
  | .skipped => h.skips sampling = true
  | _ => h.skips sampling = false

structure Sampled (sampling : Int64) (s : St ι) : Prop where
  consistent : Consistent s
  cell : s.inc.cells .sampling = sampling
  asked : ∀ i h pc, s.pc i = some (h, pc) → Asked sampling h pc
  done : ∀ x ∈ s.done, x.2 = .skipped ↔ x.1.skips sampling = true

variable {ι : Type} [DecidableEq ι] {sampling : Int64}

theorem asked_afterIncrement {h : Handler} {pc pc' : Pc} (ha : Asked sampling h pc)
    (hafter : afterIncrement h pc = some pc') : Asked sampling h pc' := by
  cases pc with
  | total =>
    simp only [afterIncrement] at hafter
    rcases hreq : h.req with _ | req <;> rw [hreq] at hafter <;> cases hafter
    · show h.req.any (filterEvent sampling) = false
      rw [hreq, Option.any_none]
    · exact hreq
  | user =>
    cases hafter
    exact ha
  | filter req => cases hafter
  | skipped => cases hafter
  | init => cases hafter
  | reserve => cases hafter
  | lost => cases hafter

/-- A handler that returns after an increment has counted its event as skipped or as lost. -/
theorem outcomeAt_skipped {h : Handler} {pc : Pc} (ha : Asked sampling h pc) (hafter : afterIncrement h pc = none)
    (hcounter : pc.counter ≠ none) : outcomeAt pc = .skipped ↔ h.skips sampling = true := by
  cases pc with
  | total =>
    simp only [afterIncrement] at hafter
    split at hafter <;> cases hafter
  | user => cases hafter
  | skipped => exact iff_of_true rfl ha
  | lost => exact iff_of_false (by decide) (Bool.eq_false_iff.mp ha)
  | filter req => exact absurd rfl hcounter
  | init => exact absurd rfl hcounter
  | reserve => exact absurd rfl hcounter

theorem Sampled.of_pc {s t : St ι} (h : Sampled sampling s) (hc : Consistent t) {i : ι} {x : Option (Handler × Pc)}
    (hcell : t.inc.cells .sampling = s.inc.cells .sampling) (hpc : t.pc = Function.update s.pc i x)
    (hx : ∀ g pc, x = some (g, pc) → Asked sampling g pc)
    (hdone : ∀ y ∈ t.done, y ∈ s.done ∨ (y.2 = .skipped ↔ y.1.skips sampling = true)) : Sampled sampling t := by
  refine ⟨hc, hcell.trans h.cell, fun j g pc hj => ?_, fun y hy => ?_⟩
  · rw [hpc] at hj
    by_cases hji : j = i
    · subst hji
      rw [Function.update_self] at hj
      exact hx g pc hj
    · rw [Function.update_of_ne hji] at hj
      exact h.asked j g pc hj
  · exact (hdone y hy).elim (h.done y) id

theorem Sampled.begin {s t : St ι} (h : Sampled sampling s) (hc : Consistent t) {i : ι} {g : Handler} {k : Global}
    {pc : Pc} (hs : s.begin i g k pc = some t) (ha : Asked sampling g pc) : Sampled sampling t := by
  obtain ⟨-, rfl⟩ := begin_eq hs
  exact h.of_pc hc rfl rfl (fun _ _ hx => by cases hx; exact ha) fun y hy => .inl hy

theorem Sampled.access {s t : St ι} (h : Sampled sampling s) (hc : Consistent t) {i : ι} {g : Handler} {pc : Pc}
    (hpc : s.pc i = some (g, pc)) (hs : s.access i g pc = some t) : Sampled sampling t := by
  obtain ⟨k, p, hin, hcases⟩ := access_cases hs
  have hk : pc.counter = some k := by
    have := h.consistent i
    rw [hin, hpc] at this
    exact this.symm
  have hcell : (s.inc.access i k p).cells .sampling = s.inc.cells .sampling := by
    refine Function.update_of_ne ?_ _ _
    rintro rfl
    cases pc <;> cases hk
  have ha := h.asked i g pc hpc
  rcases hcases with ⟨q, -, rfl⟩ | ⟨pc', -, hafter, rfl⟩ | ⟨-, hafter, rfl⟩
  · exact ⟨hc, hcell.trans h.cell, h.asked, h.done⟩
  · exact h.of_pc hc hcell rfl (fun _ _ hx => by cases hx; exact asked_afterIncrement ha hafter) fun y hy => .inl hy
  · refine h.of_pc hc hcell rfl (fun _ _ hx => nomatch hx) fun y hy => ?_
    rcases List.mem_append.mp hy with hy | hy
    · exact .inl hy
    · rw [List.mem_singleton.mp hy]
      exact .inr (outcomeAt_skipped ha hafter (by rw [hk]; exact nofun))

theorem Sampled.step {e : Ev ι} {s t : St ι} (h : Sampled sampling s) (hs : Uringtrace.step e s = some t) :
    Sampled sampling t := by
  have hc := h.consistent.step hs
  have hskips : ∀ {i g req}, s.pc i = some (g, .filter req) → g.skips sampling = filterEvent sampling req := by
    intro i g req hpc
    have hreq : g.req = some req := h.asked i g _ hpc
    simp only [Handler.skips, hreq, Option.any_some]
  rcases step_cases hs with ⟨i, g, -, hs⟩ | ⟨i, g, req, hpc, hfilter, hs⟩ | ⟨i, g, req, hpc, hfilter, rfl⟩ |
    ⟨i, g, hpc, hs⟩ | ⟨i, g, hpc, rfl⟩ | ⟨i, g, hpc, hs⟩ | ⟨i, reserved, g, pc, -, hpc, hs⟩
  · exact h.begin hc hs trivial
  · refine h.begin hc hs ((hskips hpc).trans ?_)
    rw [← h.cell]
    exact hfilter
  · refine h.of_pc hc rfl rfl (fun _ _ hx => ?_) fun y hy => .inl hy
    cases hx
    refine (hskips hpc).trans ?_
    rw [← h.cell]
    exact hfilter
  · have ha := h.asked i g _ hpc
    exact h.begin hc hs ha
  · refine h.of_pc hc rfl rfl (fun _ _ hx => nomatch hx) fun y hy => ?_
    rcases List.mem_append.mp hy with hy | hy
    · exact .inl hy
    · rw [List.mem_singleton.mp hy]
      exact .inr (iff_of_false (fun hout => nomatch hout) (Bool.eq_false_iff.mp (h.asked i g _ hpc)))
  · have ha := h.asked i g _ hpc
    exact h.begin hc hs ha
  · exact h.access hc hpc hs

/-- In every run the sampling is that of the start, and the skipped events are those whose request
    it does not sample. -/
theorem skipped_iff {s : St ι} (h : Run step anyEvent (init sampling) s) :
    s.inc.cells .sampling = sampling ∧ ∀ x ∈ s.done, x.2 = .skipped ↔ x.1.skips sampling = true := by
  have hs : Sampled sampling s := h.inv
    ⟨fun _ => rfl, rfl, fun _ _ _ hi => (nomatch hi), fun _ hy => absurd hy List.not_mem_nil⟩
    fun _ _ _ ht _ hs => ht.step hs
  exact ⟨hs.cell, hs.done⟩

/-- The events of two requests, the first of which is not sampled. -/
def twoRequests : List (Ev Unit) :=
  .enter () (handleDefer 8) :: List.replicate 9 (.next () true) ++
    .enter () (handleDefer 64) :: List.replicate 11 (.next () true)

theorem one_is_skipped : ∃ s : St Unit, Run step anyEvent (init 1) s ∧
    (s.inc.cells .sampling = 1 ∧ ∀ x ∈ s.done, x.2 = .skipped ↔ x.1.skips 1 = true) ∧
    s.done = [(handleDefer 8, .skipped), (handleDefer 64, .submitted)] := by
  obtain ⟨s, h, hp⟩ := run_of_exec_any step (init 1) twoRequests
    (fun s => s.done = [(handleDefer 8, .skipped), (handleDefer 64, .submitted)]) (by decide)
  exact ⟨s, h, skipped_iff h, of_decide_eq_true hp⟩

/-! ## The requests that are kept -/

/-- The address with these halves. -/
def address (upper lower : Nat) : UInt64 := UInt64.ofNat (upper * 4294967296 + lower)

theorem hash_address (upper lower : Nat) :
    (hash (address upper lower)).toNat = OddHash.hash 4294967296 2654435761 lower := by
  simp only [hash, address, UInt64.toNat_toUInt32, UInt64.toNat_mul, UInt32.toNat_toUInt64, UInt64.toNat_ofNat',
    OddHash.hash]
  have hconst : (2654435761 : UInt64).toNat = 2654435761 := by decide
  rw [hconst]
  omega

theorem filterEvent_address (upper lower : Nat) :
    filterEvent 1 (address upper lower) = false ↔ 10 ∣ OddHash.hash 4294967296 2654435761 lower := by
  have hhash := hash_address upper lower
  have hzero : hash (address upper lower) % 10 = 0 ↔ 10 ∣ (hash (address upper lower)).toNat := by
    rw [← UInt32.toNat_inj, UInt32.toNat_mod, Nat.dvd_iff_mod_eq_zero]
    rfl
  rw [← hhash, ← hzero]
  simp [filterEvent]

/-- Of the addresses with the same upper half that are aligned to `2 ^ k` bytes, the number of
    those that are kept. -/
theorem card_kept (upper : Nat) {k : Nat} (hk : k ≤ 32) :
    ((Finset.range 4294967296).filter fun x => 2 ^ k ∣ x ∧ filterEvent 1 (address upper x) = false).card =
      (4294967296 + Nat.lcm (2 ^ k) 10 - 1) / Nat.lcm (2 ^ k) 10 := by
  have hfilter : ((Finset.range 4294967296).filter fun x => 2 ^ k ∣ x ∧ filterEvent 1 (address upper x) = false) =
      (Finset.range 4294967296).filter fun x => 2 ^ k ∣ x ∧ 10 ∣ OddHash.hash 4294967296 2654435761 x :=
    Finset.filter_congr fun x _ => and_congr_right fun _ => filterEvent_address upper x
  have hdvd : 2 ^ k ∣ 4294967296 := pow_dvd_pow 2 hk
  rw [hfilter]
  exact OddHash.card_hits (by decide) hdvd (Nat.two_pow_pos k) (by decide)

/-- One in five of the addresses aligned to eight bytes. -/
theorem card_kept_eight : ((Finset.range 4294967296).filter fun x =>
    2 ^ 3 ∣ x ∧ filterEvent 1 (address 0 x) = false).card = 107374183 := by
  rw [card_kept 0 (by decide : 3 ≤ 32)]
  decide

end Ksight.Uringtrace

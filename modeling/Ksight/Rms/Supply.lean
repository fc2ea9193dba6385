/-
  Ksight.Rms.Supply — the CPU time that tasks use in a window of time.

  A release gives a task its budget again, and the period timer brings a release at the end of
  each period. So what a task can run in a window is bounded by the number of releases that
  the window has room for, whichever other tasks there are and whoever preempts whom.

  A run is allowed (`Allowed`) if its handlers take no time, its timers fire when they are due,
  no task finds more in its budget timer than what is left of its budget
  (`Ksight.Rms.Rest.Charged`), and the ends of the periods fit the clock (`Paces`). A window is
  any part of an allowed run.

  - `supply_bounded`: in a window of length `T` a task that keeps its timers runs for
    (⌊T / period⌋ + 2) · budget at most. The second budget is what it had left at the start.
  - `admitted_supply_bounded`: tasks that the ledger of a CPU has admitted run for the
    Liu-Layland bound of `T` at most, and two budgets each. What is left is for the tasks of
    other schedulers.
-/

import Mathlib.Algebra.BigOperators.Group.Finset.Basic
import Ksight.Rms.Admission
import Ksight.Rms.Remain
import Ksight.Rms.Rest

namespace Ksight.Rms.Supply

open Ksight.Lib
open Ksight.Rms.Budget (Meter mstep minit meter Prompt releases lags_of_prompt clkOf_nil releases_eq)
open Ksight.Rms.Rest (Charged now_prompt ran_kept)

variable {cfg : Config} {s s' : St} {q : Pid} {v v' : View}

/-! ## Period timers -/

/-- The first `set_cpumask` of a task, and each release, start its period at a time that fits; a
    task with timers does not register again. -/
def Paces : Ev → St → Prop
  | .setCpumask pid .., s | .setscheduler pid .., s | .periodExpiry pid .., s =>
    ∀ a ∈ s.maps.taskAttr.lookup pid, s.now + a.period.toNat < 2 ^ 64
  | .register pid .., s => s.maps.budgetTimer.lookup pid = none ∧ s.maps.schedTimer.lookup pid = none
  | _, _ => True

instance (s : St) : (e : Ev) → Decidable (Paces e s)
  | .setCpumask .. | .setscheduler .. | .periodExpiry .. =>
    inferInstanceAs (Decidable (∀ _ ∈ s.maps.taskAttr.lookup _, _))
  | .register .. => inferInstanceAs (Decidable (_ ∧ _))
  | .tick .. | .fork .. | .die .. | .reap .. | .selectCpu .. | .migrate .. | .enqueue .. | .dequeue ..
  | .dispatch .. | .running .. | .stopping .. | .yield .. | .budgetExpiry .. => .isTrue trivial

theorem attrKept_of_paces {e : Ev} (h : Paces e s) : Remain.AttrKept e s := by
  cases e with
  | register => exact h
  | _ => trivial

/-- An armed period timer of a task after a step: as it was, started with the task's timers, or
    started again by a release. -/
inductive Next (s : St) (q : Pid) (v : View) (t : UInt64) : Ev → Prop
  | kept {e : Ev} {p : RmsTimer} : v.sched = some p → p.t = some t → ¬ (∃ lags, e = .periodExpiry q lags) →
      Next s q v t e
  | first {e : Ev} {a : TaskAttr} : v.budget = none → v.attr = some a → t = .ofNat s.now + a.period →
      (Paces e s → s.now + a.period.toNat < 2 ^ 64) → Next s q v t e
  | release {lags : List Nat} {p : RmsTimer} : releases s q = true → v.sched = some p →
      expired s.now periodCallback p → t = p.expireTime + p.periodicTime → Next s q v t (.periodExpiry q lags)

theorem next_cpumask {f : Features} {e : Ev} {keeps : Bool} {t : Option Core} {p' : RmsTimer} {end_ : UInt64}
    (hs : CpumaskStep f (clkOf s.now []) q keeps { view s q with task := t } v') (hp : v'.sched = some p')
    (ht : p'.t = some end_) (he : ¬ ∃ lags, e = .periodExpiry q lags)
    (hfits : Paces e s → ∀ a ∈ (view s q).attr, s.now + a.period.toNat < 2 ^ 64) :
    Next s q (view s q) end_ e := by
  cases hs with
  | same => exact .kept hp ht he
  | @init _ schedRoom a _ ha hb _ =>
    rcases schedRoom with _ | _
    · cases hp
    · cases hp
      cases ht
      exact .first hb ha (by rw [clkOf_nil]) fun h => hfits h a ha
  | cancel _ _ _ _ _ =>
    obtain ⟨p, -, rfl⟩ := Option.map_eq_some_iff.mp hp
    cases ht

theorem next_view {e : Ev} {p' : RmsTimer} {t : UInt64} (hlags : Budget.Ev.lags e = [])
    (h : ViewStep cfg s q e (view s q) v') (hp : v'.sched = some p') (ht : p'.t = some t) :
    Next s q (view s q) t e := by
  generalize hv : view s q = v at h
  cases h with
  | same hnd => exact .kept hp ht fun ⟨_, he⟩ => hnd (he ▸ rfl)
  | fork | register | repolicy | die => exact .kept hp ht (by simp)
  | enter _ _ _ _ hcm =>
    obtain rfl : _ = [] := hlags
    subst hv
    exact next_cpumask hcm hp ht (by simp) fun h a ha => h a ha
  | setCpumask _ _ _ hcm =>
    obtain rfl : _ = [] := hlags
    subst hv
    exact next_cpumask hcm hp ht (by simp) fun h a ha => h a ha
  | reap =>
    split at hp
    · cases hp
    · exact .kept hp ht (by simp)
  | running =>
    refine .kept (p := p') ?_ ht (by simp)
    unfold runningView at hp
    split at hp
    · split at hp <;> exact hp
    · exact hp
  | stopping =>
    unfold stoppingView at hp
    split at hp
    · cases hp
    · exact .kept hp ht (by simp)
  | yield =>
    refine .kept (p := p') ?_ ht (by simp)
    unfold yieldView at hp
    split at hp
    · split at hp <;> exact hp
    · exact hp
  | budgetExpiry _ hbs =>
    cases hbs with
    | other | noAttr | spent | overrun => exact .kept hp ht (by simp)
  | periodExpiry hexp hps =>
    cases hps with
    | @release c a b p hc hpol ha hb hsched =>
      cases hp
      refine .release ?_ hsched (hexp p hsched) ?_
      · rw [releases_eq, hv, hc, ha, hb]
        simp [hpol]
      unfold refreshTimer at ht
      split at ht
      · cases ht
        rfl
      · cases ht
    | exit => cases hp; cases ht

/-! ## Runs -/

structure Inv (m : Meter) : Prop where
  rest : Rest.Inv m
  allotted : ∀ q, Remain.Allotted m.s.now (view m.s q)
  /-- No period timer is late. -/
  ahead : ∀ q, ∀ p ∈ (view m.s q).sched, ∀ t ∈ p.t, m.s.now ≤ t.toNat

theorem minit_inv : Inv minit where
  rest := Rest.minit_inv
  allotted _ := .of_noAttr (by simp [view, minit, init, Maps.empty])
  ahead _ p hp := by simp [view, minit, init, Maps.empty] at hp

/-- A step other than the passing of time makes of the period timers what `Next` says. -/
theorem next_act (hm : cfg.features.migration = false) {e : Ev} {m : Meter} (hb : Base m.s)
    (hpr : Prompt e m) (htick : ∀ d, e ≠ .tick d) (h : act cfg e m.s = some s') {p : RmsTimer} {t : UInt64}
    (hp : (view s' q).sched = some p) (ht : p.t = some t) : Next m.s q (view m.s q) t e := by
  cases (act_effect hb h).2 q with
  | dispatch hd =>
    cases hd with
    | same hv _ => exact .kept (hv ▸ hp) ht (by simp)
    | restart hmig => rw [hm] at hmig; cases hmig
  | other _ hv => exact next_view (lags_of_prompt hpr htick) hv hp ht

/-- The next period begins when this one ends. -/
theorem Inv.next {m : Meter} (hi : Inv m) {p : RmsTimer} {a : TaskAttr} (hp : (view m.s q).sched = some p)
    (ha : (view m.s q).attr = some a) (hexp : expired m.s.now periodCallback p)
    (hfits : m.s.now + a.period.toNat < 2 ^ 64) :
    (p.expireTime + p.periodicTime).toNat = m.s.now + a.period.toNat := by
  obtain ⟨-, t, ht, hle⟩ := hexp
  obtain ⟨rfl, hper⟩ := (hi.allotted q).armed a ha p hp t ht
  have hnow : p.expireTime.toNat = m.s.now := Nat.le_antisymm hle (hi.ahead q p hp _ ht)
  rw [hper, UInt64.toNat_add, hnow, Nat.mod_eq_of_lt hfits]

theorem mstep_inv (hm : cfg.features.migration = false) (ho : cfg.features.budgetOverrun = false) {e : Ev}
    {m m' : Meter} (hi : Inv m) (hpr : Prompt e m) (hok : Charged e m) (hpace : Paces e m.s)
    (h : mstep cfg e m = some m') : Inv m' := by
  have hrest := Rest.mstep_inv hm ho hi.rest hpr hok h
  obtain ⟨s', hs, rfl⟩ := Option.map_eq_some_iff.mp h
  have hact := (act_of_step hs).2
  refine ⟨hrest, fun q => Remain.allotted_step hm ho hi.rest.base (attrKept_of_paces hpace) hs (hi.allotted q),
    fun q p hp t ht => ?_⟩
  by_cases htick : ∃ d, e = .tick d
  · obtain ⟨d, rfl⟩ := htick
    obtain ⟨-, -, hsched⟩ := hpr
    simp only [act, Option.ite_none_right_eq_some, Option.some.injEq] at hact
    obtain ⟨-, rfl⟩ := hact
    exact hsched q (BoundedMap.mem_keys.mpr ⟨p, hp⟩) p hp t ht
  · have hnow : s'.now = m.s.now := now_prompt ho hpr (fun d hd => htick ⟨d, hd⟩) hact
    show s'.now ≤ t.toNat
    rw [hnow]
    cases next_act hm hi.rest.base hpr (fun d hd => htick ⟨d, hd⟩) hact hp ht with
    | kept hp₀ ht₀ _ => exact hi.ahead q _ hp₀ t ht₀
    | first _ ha he hfits =>
      rw [he, UInt64.toNat_add, UInt64.toNat_ofNat_of_lt' hi.rest.clock, Nat.mod_eq_of_lt (hfits hpace)]
      exact Nat.le_add_right _ _
    | release _ hp₀ hexp he =>
      obtain ⟨a, ha⟩ := Option.ne_none_iff_exists'.mp ((hi.rest.base.2 q).attr (.inr (by simp [hp₀])))
      rw [he, hi.next hp₀ ha hexp (hpace a ha)]
      exact Nat.le_add_right _ _

/-! ## Parameters -/

/-- The parameters of a task stay while it has a budget timer. -/
theorem params_cpumask {f : Features} {clk : Nat → UInt64} {keeps : Bool} (h : CpumaskStep f clk q keeps v v') :
    v'.attr.map (fun a => (a.budget, a.period)) = v.attr.map fun a => (a.budget, a.period) := by
  cases h with
  | same | init => rfl
  | cancel =>
    simp only [cancelView]
    split
    · rw [Option.map_map]; rfl
    · rfl

theorem params_view {e : Ev} (h : ViewStep cfg s q e (view s q) v') (hpace : Paces e s)
    (hb : (view s q).budget ≠ none) (hb' : v'.budget ≠ none) :
    v'.attr.map (fun a => (a.budget, a.period)) = (view s q).attr.map fun a => (a.budget, a.period) := by
  generalize hv : view s q = v at h hb
  cases h with
  | same | fork | repolicy | die => rfl
  | register => exact absurd (hv ▸ hpace.1) hb
  | enter _ _ _ _ h => exact (params_cpumask h).trans rfl
  | setCpumask _ _ _ h => exact (params_cpumask h).trans rfl
  | reap =>
    split at hb'
    · exact absurd rfl hb'
    · rename_i hne
      rw [if_neg hne]
  | running =>
    unfold runningView
    split
    · split <;> rfl
    · rfl
  | stopping =>
    unfold stoppingView at hb' ⊢
    split at hb'
    · exact absurd rfl hb'
    · rename_i hne
      rw [if_neg hne]
  | yield =>
    unfold yieldView
    split
    · rename_i ha
      split
      · simp [ha]
      · rfl
    · rfl
  | budgetExpiry _ h =>
    cases h with
    | other | noAttr | overrun => rfl
    | spent _ ha => simp [budgetView, ha]
  | periodExpiry _ h =>
    cases h with
    | release _ _ ha => simp [releaseView, ha]
    | exit => rfl

theorem params_act {e : Ev} (hb : Base s) (h : act cfg e s = some s') (hpace : Paces e s)
    (hbud : (view s q).budget ≠ none) (hbud' : (view s' q).budget ≠ none) :
    (view s' q).attr.map (fun a => (a.budget, a.period)) = (view s q).attr.map fun a => (a.budget, a.period) := by
  cases (act_effect hb h).2 q with
  | dispatch hd =>
    cases hd with
    | same hv _ => rw [hv]
    | restart _ ha _ hv => rw [hv]; simp [restartView, ha]
  | other _ hv => exact params_view hv hpace hbud hbud'

/-! ## Windows -/

/-- How long each task has run in all. -/
structure Usage where
  meter : Meter
  used : Pid → Nat

def use (e : Ev) (u : Usage) (m : Meter) : Usage :=
  ⟨m, fun q =>
    match e with
    | .tick d => if posOf u.meter.s q = some .on then u.used q + d else u.used q
    | _ => u.used q⟩

variable (cfg) in
def ustep (e : Ev) (u : Usage) : Option Usage := (mstep cfg e u.meter).map (use e u)

def uinit : Usage := ⟨minit, fun _ => 0⟩

def Usage.now (u : Usage) : Nat := u.meter.s.now

def Allowed (e : Ev) (u : Usage) : Prop := Prompt e u.meter ∧ Charged e u.meter ∧ Paces e u.meter.s

instance (e : Ev) (u : Usage) : Decidable (Allowed e u) := inferInstanceAs (Decidable (_ ∧ _ ∧ _))

/-- The task has a budget timer. -/
def Metered (q : Pid) (u : Usage) : Prop := u.meter.s.maps.budgetTimer.lookup q ≠ none

instance (q : Pid) (u : Usage) : Decidable (Metered q u) := inferInstanceAs (Decidable (_ ≠ _))

/-- What a task with the parameters `a` has run since `u`, in which it was released `k` times. -/
structure Window (u w : Usage) (q : Pid) (a : TaskAttr) (k : Nat) : Prop where
  used : w.used q ≤ u.used q + k * a.budget.toNat + w.meter.ran q
  last : k = 0 ∨ u.now + (k - 1) * a.period.toNat ≤ w.now
  ends : ∀ p ∈ (view w.meter.s q).sched, ∀ t ∈ p.t, u.now + k * a.period.toNat ≤ t.toNat
  params : (view w.meter.s q).attr.map (fun a => (a.budget, a.period)) = some (a.budget, a.period)

theorem ustep_inv (hm : cfg.features.migration = false) (ho : cfg.features.budgetOverrun = false) {e : Ev}
    {u w : Usage} (hi : Inv u.meter) (hok : Allowed e u) (h : ustep cfg e u = some w) : Inv w.meter := by
  obtain ⟨m, hs, rfl⟩ := Option.map_eq_some_iff.mp h
  exact mstep_inv hm ho hi hok.1 hok.2.1 hok.2.2 hs

variable {u w w' : Usage} {a : TaskAttr} {n : Nat}

/-- The parameters of the window are those of the entry. -/
theorem Window.attr (h : Window u w q a n) :
    ∃ a', (view w.meter.s q).attr = some a' ∧ a'.budget = a.budget ∧ a'.period = a.period := by
  obtain ⟨a', ha', hpar⟩ := Option.map_eq_some_iff.mp h.params
  simp only [Prod.mk.injEq] at hpar
  exact ⟨a', ha', hpar⟩

theorem Window.ran_le (h : Window u w q a n) (hi : Inv w.meter) (hq : Metered q w) :
    w.meter.ran q ≤ a.budget.toNat := by
  obtain ⟨a', ha', hbud, -⟩ := h.attr
  exact hbud ▸ hi.rest.ran_le ha' hq

/-- A step that releases the task. -/
theorem Window.release (ho : cfg.features.budgetOverrun = false) (hm : cfg.features.migration = false)
    (h : Window u w q a n) (hi : Inv w.meter) (hq : Metered q w) {lags : List Nat}
    (hok : Allowed (.periodExpiry q lags) w) (hrel : releases w.meter.s q = true) {s' : St}
    (hact : act cfg (.periodExpiry q lags) w.meter.s = some s')
    (hpar : (view s' q).attr.map (fun a => (a.budget, a.period)) = some (a.budget, a.period)) :
    Window u (use (.periodExpiry q lags) w (meter (.periodExpiry q lags) w.meter s')) q a (n + 1) := by
  obtain ⟨p, hp, hexp, -⟩ := act_periodExpiry hact
  obtain ⟨a', ha', hbud, hper⟩ := h.attr
  have hran := h.ran_le hi hq
  have hnow : s'.now = w.now := now_prompt ho hok.1 (by simp) hact
  have hpast : u.now + n * a.period.toNat ≤ w.now := by
    obtain ⟨-, t, ht, hle⟩ := hexp
    exact (h.ends p hp t ht).trans hle
  refine ⟨?_, .inr ?_, fun p' hp' t ht => ?_, hpar⟩
  · have hzero : (meter (.periodExpiry q lags) w.meter s').ran q = 0 := if_pos ⟨rfl, hrel⟩
    have hused := h.used
    simp only [use, hzero, Nat.add_mul]
    omega
  · rw [Nat.add_sub_cancel]
    exact hpast.trans (Nat.le_of_eq hnow.symm)
  · cases next_act hm hi.rest.base hok.1 (by simp) hact hp' ht with
    | kept _ _ hno => exact absurd ⟨lags, rfl⟩ hno
    | first hb _ _ _ => exact absurd hb hq
    | release _ hp₀ hexp₀ he =>
      rw [he, hi.next hp₀ ha' hexp₀ (hok.2.2 a' ha'), hper, Nat.add_mul, Nat.one_mul]
      have : w.meter.s.now = w.now := rfl
      omega

/-- While time passes, what the task runs is counted twice. -/
theorem Window.tick {d : Nat} (h : Window u w q a n) (hact : act cfg (.tick d) w.meter.s = some s') :
    Window u (use (.tick d) w (meter (.tick d) w.meter s')) q a n := by
  simp only [act, Option.ite_none_right_eq_some, Option.some.injEq] at hact
  obtain ⟨-, rfl⟩ := hact
  refine ⟨?_, h.last.imp_right fun hle => hle.trans (Nat.le_add_right _ d), h.ends, h.params⟩
  have hused := h.used
  simp only [use, meter]
  split <;> omega

/-- Any other step. -/
theorem Window.keep (ho : cfg.features.budgetOverrun = false) (hm : cfg.features.migration = false) {e : Ev}
    (h : Window u w q a n) (hi : Inv w.meter) (hq : Metered q w) (hok : Allowed e w) (htick : ∀ d, e ≠ .tick d)
    (hrel : ∀ lags, e = .periodExpiry q lags → releases w.meter.s q = false)
    (hact : act cfg e w.meter.s = some s')
    (hpar : (view s' q).attr.map (fun a => (a.budget, a.period)) = some (a.budget, a.period)) :
    Window u (use e w (meter e w.meter s')) q a n := by
  have hnow : s'.now = w.now := now_prompt ho hok.1 htick hact
  have hused : (use e w (meter e w.meter s')).used q = w.used q := by
    cases e with
    | tick d => exact absurd rfl (htick d)
    | _ => rfl
  have hran : (meter e w.meter s').ran q = w.meter.ran q := by
    by_cases hper : ∃ lags, e = .periodExpiry q lags
    · obtain ⟨lags, rfl⟩ := hper
      simp [meter, hrel lags rfl]
    · exact ran_kept htick (fun lags he => hper ⟨lags, he⟩) hq
  refine ⟨?_, h.last.imp_right fun hle => hle.trans (Nat.le_of_eq hnow.symm), fun p hp t ht => ?_, hpar⟩
  · rw [hused]
    exact hran ▸ h.used
  · cases next_act hm hi.rest.base hok.1 htick hact hp ht with
    | kept hp₀ ht₀ _ => exact h.ends _ hp₀ t ht₀
    | first hb _ _ _ => exact absurd hb hq
    | release hrel₀ _ _ _ =>
      rw [hrel _ rfl] at hrel₀
      cases hrel₀

theorem Window.step (ho : cfg.features.budgetOverrun = false) (hm : cfg.features.migration = false) {e : Ev}
    (h : Window u w q a n) (hi : Inv w.meter) (hq : Metered q w) (hok : Allowed e w) (hs : ustep cfg e w = some w')
    (hq' : Metered q w') : ∃ k, Window u w' q a k := by
  obtain ⟨m, hm', rfl⟩ := Option.map_eq_some_iff.mp hs
  obtain ⟨s', hs', rfl⟩ := Option.map_eq_some_iff.mp hm'
  have hact := (act_of_step hs').2
  have hpar := (params_act hi.rest.base hact hok.2.2 hq hq').trans h.params
  by_cases htick : ∃ d, e = .tick d
  · obtain ⟨d, rfl⟩ := htick
    exact ⟨n, h.tick hact⟩
  by_cases hrel : (∃ lags, e = .periodExpiry q lags) ∧ releases w.meter.s q = true
  · obtain ⟨⟨lags, rfl⟩, hrel⟩ := hrel
    exact ⟨n + 1, h.release ho hm hi hq hok hrel hact hpar⟩
  · refine ⟨n, h.keep ho hm hi hq hok (fun d hd => htick ⟨d, hd⟩) (fun lags he => ?_) hact hpar⟩
    exact Bool.eq_false_iff.mpr fun hr => hrel ⟨⟨lags, he⟩, hr⟩

/-- In a window of length `T` a task is released `T / period + 1` times at most, and has a part
    of its budget from before. -/
theorem Window.bound (h : Window u w q a n) (hi : Inv w.meter) (hq : Metered q w) (hpos : a.period ≠ 0) :
    w.used q ≤ u.used q + ((w.now - u.now) / a.period.toNat + 2) * a.budget.toNat := by
  have hperiod : 0 < a.period.toNat := UInt64.lt_iff_toNat_lt.mp (UInt64.pos_iff_ne_zero.mpr hpos)
  have hreleases : n ≤ (w.now - u.now) / a.period.toNat + 1 := by
    rcases h.last with rfl | hlast
    · exact Nat.zero_le _
    · have hle : n - 1 ≤ (w.now - u.now) / a.period.toNat := (Nat.le_div_iff_mul_le hperiod).mpr (by omega)
      omega
  have hran := h.ran_le hi hq
  calc w.used q ≤ u.used q + n * a.budget.toNat + w.meter.ran q := h.used
    _ ≤ u.used q + n * a.budget.toNat + a.budget.toNat := Nat.add_le_add_left hran _
    _ = u.used q + (n + 1) * a.budget.toNat := by rw [Nat.add_mul, Nat.one_mul, Nat.add_assoc]
    _ ≤ _ := Nat.add_le_add_left (Nat.mul_le_mul_right _ (Nat.add_le_add_right hreleases 1)) _

theorem inv_of_run (hm : cfg.features.migration = false) (ho : cfg.features.budgetOverrun = false)
    (h : Run (ustep cfg) Allowed uinit u) : Inv u.meter :=
  h.inv (P := fun u => Inv u.meter) minit_inv fun _ _ _ hi hok hs => ustep_inv hm ho hi hok hs

/-- In no window of a run does a task with timers run for more than the budgets of the releases
    that the window has room for, and one more. -/
theorem supply_bounded (hm : cfg.features.migration = false) (ho : cfg.features.budgetOverrun = false)
    (hu : Run (ustep cfg) Allowed uinit u) (ha : u.meter.s.maps.taskAttr.lookup q = some a)
    (hw : Run (ustep cfg) (fun e w => Allowed e w ∧ Metered q w) u w) (hq : Metered q w) :
    w.used q ≤ u.used q + ((w.now - u.now) / a.period.toNat + 2) * a.budget.toNat := by
  have hi := inv_of_run hm ho hu
  have hwindow : Inv w.meter ∧ (Metered q w → ∃ k, Window u w q a k) := by
    refine hw.inv (P := fun w => Inv w.meter ∧ (Metered q w → ∃ k, Window u w q a k)) ⟨hi, fun _ => ⟨0, ?_⟩⟩ ?_
    · refine ⟨?_, .inl rfl, fun p hp t ht => ?_, ?_⟩
      · omega
      · rw [Nat.zero_mul]
        exact hi.ahead q p hp t ht
      · exact congrArg _ ha
    · intro e w w' ⟨hi, hk⟩ ⟨hok, hq⟩ hs
      obtain ⟨k, hk⟩ := hk hq
      exact ⟨ustep_inv hm ho hi hok hs, fun hq' => hk.step ho hm hi hq hok hs hq'⟩
  obtain ⟨hi', hk⟩ := hwindow
  obtain ⟨k, hk⟩ := hk hq
  exact hk.bound hi' hq ((hi.rest.base.2 q).params a ha).2

/-- Task 8 preempts task 7 twice. -/
def preempted : List Ev :=
  [.tick 10, .periodExpiry 7 [], .enqueue 7 3, .dispatch 3 [], .running 7 [], .tick 2, .fork 8 0 {3} 3,
    .register 8 3 2 9, .setscheduler 8 schedExt [], .enqueue 8 0, .stopping 7 true [], .enqueue 7 3, .dispatch 3 [],
    .running 8 [], .tick 2, .budgetExpiry 8 3 [], .stopping 8 true [], .enqueue 8 3, .dispatch 3 [], .running 7 [],
    .tick 1, .budgetExpiry 7 3 [], .stopping 7 true [], .enqueue 7 3, .dispatch 3 [], .tick 5, .periodExpiry 7 [],
    .dispatch 3 [], .running 7 [], .tick 1, .periodExpiry 8 [], .stopping 7 true [], .enqueue 7 3, .dispatch 3 [],
    .running 8 [], .tick 2, .budgetExpiry 8 3 [], .stopping 8 true [], .enqueue 8 3, .dispatch 3 [], .running 7 [],
    .tick 2]

theorem a_preempted_task_in_a_window : ∃ u w, Run (ustep (config false)) Allowed uinit u ∧
    Run (ustep (config false)) (fun e w => Allowed e w ∧ Metered 7 w) u w ∧ w.used 7 = 6 ∧
    w.used 7 ≤ u.used 7 + ((w.now - u.now) / (10 : UInt64).toNat + 2) * (5 : UInt64).toNat := by
  obtain ⟨u, hu, hp⟩ := run_of_execIf_any (ustep (config false)) Allowed uinit (enrolled 7 5 10)
    (fun u => decide (u.meter.s.maps.taskAttr.lookup 7 = some ⟨3, 5, 10, 0, 0⟩) &&
      (execIf (ustep (config false)) (fun e w => Allowed e w ∧ Metered 7 w) preempted u).any fun w =>
        decide (Metered 7 w ∧ w.used 7 = 6)) (by decide +kernel)
  obtain ⟨ha, hany⟩ := Bool.and_eq_true_iff.mp hp
  obtain ⟨w, hw, hused⟩ := run_of_execIf_any _ _ u preempted _ hany
  obtain ⟨hq, hused⟩ := of_decide_eq_true hused
  exact ⟨u, w, hu, hw, hused, supply_bounded rfl rfl hu (of_decide_eq_true ha) hw hq⟩

/-! ## Admitted tasks -/

theorem utilization_le {jobs all : Multiset Admission.Job} (h : jobs ≤ all) :
    Admission.utilization jobs ≤ Admission.utilization all := by
  obtain ⟨others, rfl⟩ := Multiset.le_iff_exists_add.mp h
  have hothers := Admission.utilization_nonneg others
  simp only [Admission.utilization, Multiset.map_add, Multiset.sum_add] at hothers ⊢
  exact le_add_of_nonneg_right hothers

/-- The budgets of the releases that a time has room for are the task's share of it at most. -/
theorem releases_le_share (time : Nat) (budget period : UInt64) :
    ((time / period.toNat * budget.toNat : ℕ) : ℝ) ≤ (share budget period : ℚ) * time := by
  have hfloor : ((time / period.toNat : ℕ) : ℝ) ≤ (time : ℝ) / period.toNat := Nat.cast_div_le
  calc ((time / period.toNat * budget.toNat : ℕ) : ℝ)
      = ((time / period.toNat : ℕ) : ℝ) * budget.toNat := Nat.cast_mul _ _
    _ ≤ (time : ℝ) / period.toNat * budget.toNat := mul_le_mul_of_nonneg_right hfloor (Nat.cast_nonneg _)
    _ = (share budget period : ℚ) * time := by
      rw [share]
      push_cast
      ring

def jobOf (a : TaskAttr) : Admission.Job := ⟨a.budget, a.period⟩

/-- In no window of a run do tasks that the ledger of a CPU has admitted run for more than the
    share of it that the bound allows, and two budgets each. -/
theorem admitted_supply_bounded (hm : cfg.features.migration = false) (ho : cfg.features.budgetOverrun = false)
    (hu : Run (ustep cfg) Allowed uinit u) {attrs : BoundedMap Pid TaskAttr maxTaskNr} {ledger : Admission.St}
    (hl : Run Admission.step anyEvent (Admission.init attrs) ledger) {cpu : Cpu} {tasks : Finset Pid}
    {attr : Pid → TaskAttr} (ha : ∀ q ∈ tasks, u.meter.s.maps.taskAttr.lookup q = some (attr q))
    (hadmitted : (tasks.val.map fun q => jobOf (attr q)) ≤ ledger.admitted cpu)
    (hw : Run (ustep cfg) (fun e w => Allowed e w ∧ ∀ q ∈ tasks, Metered q w) u w) (hq : ∀ q ∈ tasks, Metered q w) :
    ((∑ q ∈ tasks, w.used q : ℕ) : ℝ) ≤ (∑ q ∈ tasks, u.used q : ℕ) +
      llBound (ledger.admitted cpu).card * (w.now - u.now : ℕ) + 2 * (∑ q ∈ tasks, (attr q).budget.toNat : ℕ) := by
  have htask : ∀ q ∈ tasks, (w.used q : ℝ) ≤
      u.used q + (jobOf (attr q)).share * (w.now - u.now : ℕ) + 2 * (attr q).budget.toNat := by
    intro q hmem
    have hle := supply_bounded hm ho hu (ha q hmem) (hw.mono fun _ _ h => ⟨h.1, h.2 q hmem⟩) (hq q hmem)
    have hshare := releases_le_share (w.now - u.now) (attr q).budget (attr q).period
    rw [Nat.add_mul] at hle
    have hcast : (w.used q : ℝ) ≤ u.used q +
        (((w.now - u.now) / (attr q).period.toNat * (attr q).budget.toNat : ℕ) + 2 * (attr q).budget.toNat) := by
      exact_mod_cast hle
    have hjob : ((jobOf (attr q)).share : ℝ) = (share (attr q).budget (attr q).period : ℚ) := rfl
    rw [hjob]
    linarith
  have hutil : ((∑ q ∈ tasks, (jobOf (attr q)).share : ℚ) : ℝ) ≤ llBound (ledger.admitted cpu).card := by
    have hsum : ∑ q ∈ tasks, (jobOf (attr q)).share = Admission.utilization (tasks.val.map fun q => jobOf (attr q)) := by
      rw [Admission.utilization, Multiset.map_map]
      rfl
    rcases eq_or_ne (ledger.admitted cpu) 0 with hnone | hsome
    · rw [hnone] at hadmitted ⊢
      rw [hsum, Multiset.le_zero.mp hadmitted]
      simp [Admission.utilization, llBound]
    · have hbound := (Admission.jobs_iff hsome).mp (Admission.admitted_sound hl cpu hsome)
      exact (by exact_mod_cast hsum ▸ utilization_le hadmitted : (_ : ℝ) ≤ _).trans hbound
  calc ((∑ q ∈ tasks, w.used q : ℕ) : ℝ)
      = ∑ q ∈ tasks, (w.used q : ℝ) := Nat.cast_sum _ _
    _ ≤ ∑ q ∈ tasks, ((u.used q : ℝ) + (jobOf (attr q)).share * (w.now - u.now : ℕ) + 2 * (attr q).budget.toNat) :=
      Finset.sum_le_sum htask
    _ = (∑ q ∈ tasks, u.used q : ℕ) + ((∑ q ∈ tasks, (jobOf (attr q)).share : ℚ) : ℝ) * (w.now - u.now : ℕ) +
        2 * (∑ q ∈ tasks, (attr q).budget.toNat : ℕ) := by
      rw [Finset.sum_add_distrib, Finset.sum_add_distrib, ← Finset.sum_mul, ← Finset.mul_sum]
      push_cast
      rfl
    _ ≤ _ := by
      have hscale := mul_le_mul_of_nonneg_right hutil (Nat.cast_nonneg (w.now - u.now))
      linarith

def pair : Finset Pid := {7, 8}

/-- The parameters of tasks 7 and 8. -/
def twoTasks (q : Pid) : TaskAttr := if q = 7 then ⟨3, 5, 10, 0, 0⟩ else ⟨3, 2, 9, 0, 0⟩

/-- Each uses up its budget, and task 8 is released again. -/
def inTurn : List Ev :=
  [.enqueue 7 3, .enqueue 8 3, .dispatch 3 [], .running 8 [], .tick 2, .budgetExpiry 8 3 [], .stopping 8 true [],
    .enqueue 8 3, .dispatch 3 [], .running 7 [], .tick 5, .budgetExpiry 7 3 [], .stopping 7 true [], .enqueue 7 3,
    .dispatch 3 [], .tick 2, .periodExpiry 8 [], .dispatch 3 [], .running 8 [], .tick 1]

theorem two_admitted_tasks_in_a_window : ∃ u w ledger, Run (ustep (config false)) Allowed uinit u ∧
    Run (ustep (config false)) (fun e w => Allowed e w ∧ ∀ q ∈ pair, Metered q w) u w ∧
    Run Admission.step anyEvent (Admission.init .empty) ledger ∧ ∑ q ∈ pair, w.used q = 8 ∧
    ((∑ q ∈ pair, w.used q : ℕ) : ℝ) ≤ (∑ q ∈ pair, u.used q : ℕ) +
      llBound (ledger.admitted 3).card * (w.now - u.now : ℕ) +
      2 * (∑ q ∈ pair, (twoTasks q).budget.toNat : ℕ) := by
  obtain ⟨u, hu, hp⟩ := run_of_execIf_any (ustep (config false)) Allowed uinit (enrolled 7 5 10 ++ enrolled 8 2 9)
    (fun u => decide (∀ q ∈ pair, u.meter.s.maps.taskAttr.lookup q = some (twoTasks q)) &&
      (execIf (ustep (config false)) (fun e w => Allowed e w ∧ ∀ q ∈ pair, Metered q w) inTurn u).any fun w =>
        decide ((∀ q ∈ pair, Metered q w) ∧ ∑ q ∈ pair, w.used q = 8)) (by decide +kernel)
  obtain ⟨ha, hany⟩ := Bool.and_eq_true_iff.mp hp
  obtain ⟨w, hw, hused⟩ := run_of_execIf_any _ _ u inTurn _ hany
  obtain ⟨hq, hused⟩ := of_decide_eq_true hused
  obtain ⟨ledger, hl, hadmitted⟩ := run_of_exec_any Admission.step (Admission.init .empty)
    [.register .allOk 7 3 ⟨5, 10⟩, .register .allOk 8 3 ⟨2, 9⟩]
    (fun ledger => decide ((pair.val.map fun q => jobOf (twoTasks q)) ≤ ledger.admitted 3)) (by decide +kernel)
  exact ⟨u, w, ledger, hu, hw, hl, hused,
    admitted_supply_bounded rfl rfl hu hl (of_decide_eq_true ha) (of_decide_eq_true hadmitted) hw hq⟩

end Ksight.Rms.Supply

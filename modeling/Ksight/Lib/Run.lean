/-
  Ksight.Lib.Run — runs of a partial step function whose steps are taken under a
  condition.

  `step e s` is what event `e` makes of state `s`, `none` where the system cannot take
  it. `Run step ok s t` says that `t` is reached from `s` by events each of which `ok`
  allows in the state it is taken in. An assumption on the environment, or the condition
  under which a property holds, is a choice of `ok`; `Run.inv` is the one induction
  every safety result uses.

  The exact condition for a property is that of the end of a run (`holds_iff_execIf`), or
  that of all the states on the way (`along_iff_of_step`).
-/

import Mathlib.Data.List.Basic

namespace Ksight.Lib

variable {σ ε : Type*}

inductive Run (step : ε → σ → Option σ) (ok : ε → σ → Prop) (s : σ) : σ → Prop
  | refl : Run step ok s s
  | snoc {t u : σ} (e : ε) : Run step ok s t → ok e t → step e t = some u → Run step ok s u

/-- The condition that allows every event. -/
def anyEvent (_ : ε) (_ : σ) : Prop := True

variable {step : ε → σ → Option σ} {ok : ε → σ → Prop}

/-- A property that holds at the start and is kept by every allowed step holds of every
    state of every run. -/
theorem Run.inv {P : σ → Prop} {s t : σ} (h : Run step ok s t) (h0 : P s)
    (hstep : ∀ e t u, P t → ok e t → step e t = some u → P u) : P t := by
  induction h with
  | refl => exact h0
  | snoc e _ hok hs ih => exact hstep e _ _ ih hok hs

/-- A condition may be replaced by a weaker one. -/
theorem Run.mono {ok' : ε → σ → Prop} {s t : σ} (h : Run step ok s t) (hok : ∀ e s, ok e s → ok' e s) :
    Run step ok' s t := by
  induction h with
  | refl => exact .refl
  | snoc e _ he hs ih => exact .snoc e ih (hok _ _ he) hs

theorem Run.trans {s t u : σ} (h : Run step ok s t) (h' : Run step ok t u) : Run step ok s u := by
  induction h' with
  | refl => exact h
  | snoc e _ hok hs ih => exact .snoc e ih hok hs

/-- The state a list of events leads to, when each of them can be taken. -/
def exec (step : ε → σ → Option σ) : List ε → σ → Option σ
  | [], s => some s
  | e :: es, s => (step e s).bind (exec step es)

/-- `exec` that stops at the first event `ok` does not allow. -/
def execIf (step : ε → σ → Option σ) (ok : ε → σ → Prop) [∀ e s, Decidable (ok e s)] :
    List ε → σ → Option σ :=
  exec fun e s => if ok e s then step e s else none

theorem exec_of_execIf [∀ e s, Decidable (ok e s)] {s t : σ} {es : List ε} (h : execIf step ok es s = some t) :
    exec step es s = some t := by
  induction es generalizing s with
  | nil => exact h
  | cons e es ih =>
    obtain ⟨v, hv, ht⟩ := Option.bind_eq_some_iff.mp h
    simp only [Option.ite_none_right_eq_some] at hv
    exact Option.bind_eq_some_iff.mpr ⟨v, hv.2, ih ht⟩

theorem run_of_exec_from {s t u : σ} {es : List ε} (hr : Run step anyEvent s t)
    (h : exec step es t = some u) :
    Run step anyEvent s u := by
  induction es generalizing t with
  | nil => cases h; exact hr
  | cons e es ih =>
    obtain ⟨v, hv, hu⟩ := Option.bind_eq_some_iff.mp h
    exact ih (.snoc e hr trivial hv) hu

theorem run_of_exec {s t : σ} {es : List ε} (h : exec step es s = some t) : Run step anyEvent s t :=
  run_of_exec_from .refl h

/-- A run found by computation: its events lead to a state that passes the test `p`. -/
theorem run_of_exec_any (step : ε → σ → Option σ) (s : σ) (es : List ε) (p : σ → Bool)
    (h : (exec step es s).any p = true) : ∃ t, Run step anyEvent s t ∧ p t = true := by
  obtain ⟨t, ht, hp⟩ := (Option.any_eq_true _ _).mp h
  exact ⟨t, run_of_exec ht, hp⟩

theorem run_of_execIf [∀ e s, Decidable (ok e s)] {s t : σ} {es : List ε} (h : execIf step ok es s = some t) :
    Run step ok s t := by
  suffices ∀ v, Run step ok s v → execIf step ok es v = some t → Run step ok s t from this s .refl h
  clear h
  induction es with
  | nil => intro v hr h; cases h; exact hr
  | cons e es ih =>
    intro v hr h
    obtain ⟨w, hw, hu⟩ := Option.bind_eq_some_iff.mp h
    simp only [Option.ite_none_right_eq_some] at hw
    exact ih w (.snoc e hr hw.1 hw.2) hu

/-- The same of a run whose steps are all allowed. -/
theorem execIf_any (step : ε → σ → Option σ) (ok : ε → σ → Prop) [∀ e s, Decidable (ok e s)] (s : σ)
    (es : List ε) (p : σ → Bool) (h : (execIf step ok es s).any p = true) :
    ∃ t, exec step es s = some t ∧ execIf step ok es s = some t ∧ p t = true := by
  obtain ⟨t, ht, hp⟩ := (Option.any_eq_true _ _).mp h
  exact ⟨t, exec_of_execIf ht, ht, hp⟩

theorem run_of_execIf_any (step : ε → σ → Option σ) (ok : ε → σ → Prop) [∀ e s, Decidable (ok e s)] (s : σ)
    (es : List ε) (p : σ → Bool) (h : (execIf step ok es s).any p = true) :
    ∃ t, Run step ok s t ∧ p t = true := by
  obtain ⟨t, -, ht, hp⟩ := execIf_any step ok s es p h
  exact ⟨t, run_of_execIf ht, hp⟩

/-! ## The exact condition -/

/-- A run takes only allowed steps, or splits at the first one that is not. -/
theorem exec_splits (ok : ε → σ → Prop) [∀ e s, Decidable (ok e s)] {s t : σ} {es : List ε}
    (h : exec step es s = some t) :
    execIf step ok es s = some t ∨
      ∃ es₁ e es₂ u v, es = es₁ ++ e :: es₂ ∧ execIf step ok es₁ s = some u ∧ ¬ ok e u ∧
        step e u = some v ∧ exec step es₂ v = some t := by
  induction es generalizing s with
  | nil => exact .inl h
  | cons e es ih =>
    obtain ⟨w, hs, hes⟩ := Option.bind_eq_some_iff.mp h
    by_cases he : ok e s
    · have hcons : ∀ fs, execIf step ok (e :: fs) s = execIf step ok fs w := fun fs => by
        rw [execIf, exec, if_pos he, hs]
        rfl
      rcases ih hes with hif | ⟨es₁, e', es₂, u, v, rfl, hu, hno, hv, ht⟩
      · exact .inl ((hcons es).trans hif)
      · exact .inr ⟨e :: es₁, e', es₂, u, v, rfl, (hcons es₁).trans hu, hno, hv, ht⟩
    · exact .inr ⟨[], e, es, s, w, rfl, rfl, he, hs, hes⟩

section
variable [∀ e s, Decidable (ok e s)] {I B P : σ → Prop}
  (hok : ∀ e s t, I s → ok e s → step e s = some t → I t)
  (hno : ∀ e s t, I s → ¬ ok e s → step e s = some t → B t)
  (hbad : ∀ e s t, B s → step e s = some t → B t)
include hok hno hbad

/-- A run takes only allowed steps and stays good, or takes one that is not and stays bad
    from there on. -/
theorem exec_good_or_bad {s t : σ} {es : List ε} (h0 : I s) (h : exec step es s = some t) :
    execIf step ok es s = some t ∨ B t := by
  rcases exec_splits ok h with hif | ⟨_, e, _, u, v, -, hu, he, hv, ht⟩
  · exact .inl hif
  · have hI : I u := (run_of_execIf hu).inv h0 hok
    exact .inr ((run_of_exec ht).inv (hno e u v hI he hv) fun e _ _ hb _ h => hbad e _ _ hb h)

/-- `ok` is the exact condition for `P`: at the end of a run `P` holds if and only if each
    step was allowed. -/
theorem holds_iff_execIf (hI : ∀ s, I s → P s) (hB : ∀ s, B s → ¬ P s) {s t : σ} {es : List ε} (h0 : I s)
    (h : exec step es s = some t) : P t ↔ execIf step ok es s = some t := by
  constructor
  · intro hp
    exact (exec_good_or_bad hok hno hbad h0 h).resolve_right fun hb => hB t hb hp
  · intro hif
    exact hI t ((run_of_execIf hif).inv h0 fun e s u hs he h => hok e s u hs he h)

end

/-- Where each step keeps `P` if and only if it is allowed, and `P` once lost stays lost. -/
theorem holds_iff_of_step [∀ e s, Decidable (ok e s)] {I P : σ → Prop}
    (hI : ∀ e s t, I s → step e s = some t → I t)
    (hP : ∀ e s t, I s → step e s = some t → (P t ↔ P s ∧ ok e s)) {s t : σ} {es : List ε} (h0 : I s) (hp : P s)
    (h : exec step es s = some t) : P t ↔ execIf step ok es s = some t := by
  refine holds_iff_execIf (I := fun s => I s ∧ P s) (B := fun s => I s ∧ ¬ P s) ?_ ?_ ?_ (fun _ hs => hs.2)
    (fun _ hs => hs.2) ⟨h0, hp⟩ h
  · intro e s t hs hok h
    exact ⟨hI e s t hs.1 h, (hP e s t hs.1 h).mpr ⟨hs.2, hok⟩⟩
  · intro e s t hs hno h
    exact ⟨hI e s t hs.1 h, fun hp => hno ((hP e s t hs.1 h).mp hp).2⟩
  · intro e s t hs h
    exact ⟨hI e s t hs.1 h, fun hp => hs.2 ((hP e s t hs.1 h).mp hp).1⟩

/-! ## Along a run -/

/-- `P` holds at the start and after each of the events that can be taken. -/
def Along (step : ε → σ → Option σ) (P : σ → Prop) : List ε → σ → Prop
  | [], s => P s
  | e :: es, s => P s ∧ ∀ t ∈ step e s, Along step P es t

/-- `P` may be lost and come back. It holds all along a run if and only if each step was
    allowed, where a step from a state with `P` keeps it if and only if it is allowed. -/
theorem along_iff_of_step [∀ e s, Decidable (ok e s)] {I P : σ → Prop}
    (hI : ∀ e s t, I s → step e s = some t → I t)
    (hP : ∀ e s t, I s → P s → step e s = some t → (P t ↔ ok e s)) {s t : σ} {es : List ε} (h0 : I s) (hp : P s)
    (h : exec step es s = some t) : Along step P es s ↔ execIf step ok es s = some t := by
  induction es generalizing s with
  | nil => exact ⟨fun _ => h, fun _ => hp⟩
  | cons e es ih =>
    obtain ⟨u, hu, ht⟩ := Option.bind_eq_some_iff.mp h
    have hstep : Along step P (e :: es) s ↔ Along step P es u := by
      rw [Along, hu]
      exact ⟨fun ha => ha.2 u rfl, fun ha => ⟨hp, fun v hv => Option.some.inj hv ▸ ha⟩⟩
    by_cases hok : ok e s
    · have hrest : execIf step ok (e :: es) s = execIf step ok es u := by
        rw [execIf, exec, if_pos hok, hu]
        rfl
      rw [hstep, hrest, ih (hI e s u h0 hu) ((hP e s u h0 hp hu).mpr hok) ht]
    · have hstop : execIf step ok (e :: es) s = none := by
        rw [execIf, exec, if_neg hok]
        rfl
      rw [hstep, hstop]
      refine ⟨fun ha => absurd ((hP e s u h0 hp hu).mp ?_) hok, nofun⟩
      cases es with
      | nil => exact ha
      | cons _ _ => exact ha.1

end Ksight.Lib

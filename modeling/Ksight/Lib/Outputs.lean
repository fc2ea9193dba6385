/-
  Ksight.Lib.Outputs — the outputs of a program along a list of inputs.

  `step a s` is what the program makes of input `a` in state `s`: an output and a state.
  `outputs_rel` is the one induction that relates two such programs: related inputs give
  related outputs, where a step keeps the relation of the states.
-/

import Mathlib.Data.List.Forall2

namespace Ksight.Lib

variable {α β σ α' β' σ' : Type*}

def outputs (step : α → σ → β × σ) : List α → σ → List β
  | [], _ => []
  | a :: as, s => (step a s).1 :: outputs step as (step a s).2

theorem outputs_concat (step : α → σ → β × σ) (as : List α) (a : α) (s : σ) :
    outputs step (as ++ [a]) s = outputs step as s ++ [(step a (as.foldl (fun s a => (step a s).2) s)).1] := by
  induction as generalizing s with
  | nil => rfl
  | cons a' as ih => exact congrArg (_ :: ·) (ih (step a' s).2)

theorem outputs_rel {step : α → σ → β × σ} {step' : α' → σ' → β' × σ'} {I : α → α' → Prop} {S : σ → σ' → Prop}
    {O : β → β' → Prop}
    (h : ∀ a a' s s', I a a' → S s s' → O (step a s).1 (step' a' s').1 ∧ S (step a s).2 (step' a' s').2)
    {as : List α} {as' : List α'} (hi : List.Forall₂ I as as') {s : σ} {s' : σ'} (hs : S s s') :
    List.Forall₂ O (outputs step as s) (outputs step' as' s') := by
  induction hi generalizing s s' with
  | nil => exact .nil
  | cons ha _ ih =>
    obtain ⟨ho, hs'⟩ := h _ _ s s' ha hs
    exact .cons ho (ih hs')

/-- Where the outputs of the second program are a function of those of the first. -/
theorem outputs_map {step : α → σ → β × σ} {step' : α' → σ' → β' × σ'} {I : α → α' → Prop} {S : σ → σ' → Prop}
    {f : β → β'}
    (h : ∀ a a' s s', I a a' → S s s' → (step' a' s').1 = f (step a s).1 ∧ S (step a s).2 (step' a' s').2)
    {as : List α} {as' : List α'} (hi : List.Forall₂ I as as') {s : σ} {s' : σ'} (hs : S s s') :
    outputs step' as' s' = (outputs step as s).map f := by
  have hrel := outputs_rel (O := fun b b' => f b = b') (fun a a' s s' ha hs => ⟨(h a a' s s' ha hs).1.symm,
    (h a a' s s' ha hs).2⟩) hi hs
  rw [← List.forall₂_eq_eq_eq, List.forall₂_map_right_iff]
  exact hrel.flip.imp fun _ _ h => h.symm

end Ksight.Lib

/-
  Ksight.Lib.Quoted — lists of strings between quotation marks.

  A string is written between two marks `q`, a mark inside it after the escape `b`, and the
  escape itself as it is; `sp` follows each string. So a string that ends in an escape
  looks like one that goes on with a mark. But after its closing mark comes the separator and
  then a mark without an escape, which is in no string (`not_both`): the text can be read in
  one way only (`quoted_inj`).
-/

import Mathlib.Data.List.Basic

namespace Ksight.Lib.Quoted

variable {α : Type*} [DecidableEq α] (q b sp : α)

def escape (s : List α) : List α := s.flatMap fun c => if c = q then [b, q] else [c]

/-- The strings that follow one. -/
def rest : List (List α) → List α
  | [] => []
  | t :: l => q :: (escape q b t ++ q :: sp :: rest l)

/-- From after the mark that opens `s`. -/
def inside (s : List α) (l : List (List α)) : List α := escape q b s ++ q :: sp :: rest q b sp l

def quoted : List (List α) → List α
  | [] => [q]
  | s :: l => q :: inside q b sp s l

variable {q b sp}

theorem inside_nil (l : List (List α)) : inside q b sp [] l = q :: sp :: rest q b sp l := rfl

theorem inside_mark (s : List α) (l : List (List α)) : inside q b sp (q :: s) l = b :: q :: inside q b sp s l := by
  simp [inside, escape]

theorem inside_cons {c : α} (hc : c ≠ q) (s : List α) (l : List (List α)) :
    inside q b sp (c :: s) l = c :: inside q b sp s l := by
  simp [inside, escape, hc]

/-- Only the empty string starts with its closing mark. -/
theorem inside_eq_mark (hb : b ≠ q) {s : List α} {l : List (List α)} {text : List α}
    (h : inside q b sp s l = q :: text) : s = [] := by
  cases s with
  | nil => rfl
  | cons c s =>
    by_cases hc : c = q
    · subst hc
      rw [inside_mark, List.cons.injEq] at h
      exact absurd h.1 hb
    · rw [inside_cons hc, List.cons.injEq] at h
      exact absurd h.1 hc

variable (hb : b ≠ q) (hs : sp ≠ q) (hbs : b ≠ sp)
include hb hs hbs

/-- What follows a closing mark is not the rest of a string. -/
theorem not_both (l m : List (List α)) (s : List α) : sp :: rest q b sp l ≠ inside q b sp s m := by
  -- the two readings of the text would close and open in turn, each where the other does not
  induction hn : l.length + m.length using Nat.strongRecOn generalizing l m s with
  | ind n ih =>
    intro h
    cases s with
    | nil =>
      rw [inside_nil, List.cons.injEq] at h
      exact hs h.1
    | cons c s =>
      by_cases hc : c = q
      · subst hc
        rw [inside_mark, List.cons.injEq] at h
        exact hbs h.1.symm
      · rw [inside_cons hc, List.cons.injEq] at h
        obtain ⟨-, h⟩ := h
        cases l with
        | nil => simp [rest, inside] at h
        | cons t l =>
          obtain rfl := inside_eq_mark hb h.symm
          rw [inside_nil, rest, List.cons.injEq] at h
          have hlt : m.length + l.length < n := by
            rw [List.length_cons] at hn
            omega
          exact ih _ hlt m l t rfl h.2.symm

/-- An escaped mark is not an escape that ends the string. -/
theorem mark_ne {c : α} (hc : c ≠ q) (s t : List α) (l m : List (List α)) :
    inside q b sp (q :: s) l ≠ inside q b sp (c :: t) m := by
  intro h
  rw [inside_mark, inside_cons hc, List.cons.injEq] at h
  obtain ⟨-, h⟩ := h
  obtain rfl := inside_eq_mark hb h.symm
  rw [inside_nil, List.cons.injEq] at h
  exact not_both hb hs hbs m l s h.2.symm

theorem inside_inj {l : List (List α)} (hl : ∀ m, rest q b sp l = rest q b sp m → l = m) {s t : List α}
    {m : List (List α)} (h : inside q b sp s l = inside q b sp t m) : s = t ∧ l = m := by
  induction s generalizing t with
  | nil =>
    obtain rfl := inside_eq_mark hb (h.symm.trans (inside_nil l))
    rw [inside_nil, inside_nil, List.cons.injEq, List.cons.injEq] at h
    exact ⟨rfl, hl m h.2.2⟩
  | cons c s ih =>
    cases t with
    | nil => exact absurd (inside_eq_mark hb (h.trans (inside_nil m))) (List.cons_ne_nil c s)
    | cons d t =>
      by_cases hc : c = q <;> by_cases hd : d = q
      · subst hc hd
        rw [inside_mark, inside_mark, List.cons.injEq, List.cons.injEq] at h
        obtain ⟨rfl, rfl⟩ := ih h.2.2
        exact ⟨rfl, rfl⟩
      · subst hc
        exact absurd h (mark_ne hb hs hbs hd s t l m)
      · subst hd
        exact absurd h.symm (mark_ne hb hs hbs hc t s m l)
      · rw [inside_cons hc, inside_cons hd, List.cons.injEq] at h
        obtain ⟨rfl, rfl⟩ := ih h.2
        exact ⟨congrArg (· :: s) h.1, rfl⟩

theorem rest_inj {l m : List (List α)} (h : rest q b sp l = rest q b sp m) : l = m := by
  induction l generalizing m with
  | nil =>
    cases m with
    | nil => rfl
    | cons t m => simp [rest] at h
  | cons s l ih =>
    cases m with
    | nil => simp [rest] at h
    | cons t m =>
      rw [rest, rest, List.cons.injEq] at h
      obtain ⟨rfl, rfl⟩ := inside_inj hb hs hbs (fun _ => ih) h.2
      rfl

/-- The text of a list is that of no other. -/
theorem quoted_inj {l m : List (List α)} (h : quoted q b sp l = quoted q b sp m) : l = m := by
  cases l with
  | nil =>
    cases m with
    | nil => rfl
    | cons t m => simp [quoted, inside] at h
  | cons s l =>
    cases m with
    | nil => simp [quoted, inside] at h
    | cons t m =>
      rw [quoted, quoted, List.cons.injEq] at h
      obtain ⟨rfl, rfl⟩ := inside_inj hb hs hbs (fun _ => rest_inj hb hs hbs) h.2
      rfl

end Ksight.Lib.Quoted

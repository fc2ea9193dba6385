/-
  Ksight.Lib.Uses — resources that are acquired and released, and procedures that stop at
  the first call that fails.

  A log is what is done to resources, in order. `ReleasedOnce` says of each of them that it
  is acquired and then released, once, or that nothing is done to it. Where several parties
  each have resources of their own, their logs can be judged one by one
  (`releasedOnce_parties`).

  A procedure is a list of stages, each a call and what is done if it succeeds and if it
  fails; the first failure ends it. Where no call is made twice, all that matters of the
  results is which call is the first to fail (`runStages_cases`).
-/

import Mathlib.Data.List.Nodup

namespace Ksight.Lib

inductive Use (ρ : Type*)
  | acquire (r : ρ)
  | release (r : ρ)
  deriving DecidableEq

variable {ρ ι : Type*}

def Use.resource : Use ρ → ρ
  | .acquire r => r
  | .release r => r

/-- A use of the resources of party `i`. -/
def Use.tag (i : ι) : Use ρ → Use (ι × ρ)
  | .acquire r => .acquire (i, r)
  | .release r => .release (i, r)

@[simp] theorem resource_tag (i : ι) (u : Use ρ) : (u.tag i).resource = (i, u.resource) := by
  cases u <;> rfl

theorem tag_injective (i : ι) : Function.Injective (Use.tag i : Use ρ → Use (ι × ρ)) := by
  intro u v h
  cases u <;> cases v <;> simp_all [Use.tag]

section
variable [DecidableEq ρ]

def usesOf (r : ρ) (log : List (Use ρ)) : List (Use ρ) := log.filter fun u => u.resource = r

/-- A resource that is used at all is acquired and then released, once. -/
def ReleasedOnce (log : List (Use ρ)) : Prop :=
  ∀ r, usesOf r log = [] ∨ usesOf r log = [.acquire r, .release r]

theorem releasedOnce_iff {log : List (Use ρ)} :
    ReleasedOnce log ↔ ∀ u ∈ log, usesOf u.resource log = [.acquire u.resource, .release u.resource] := by
  constructor
  · intro h u hu
    refine (h u.resource).resolve_left fun hn => ?_
    have := List.filter_eq_nil_iff.mp hn u hu
    simp at this
  · intro h r
    by_cases hr : ∃ u ∈ log, u.resource = r
    · obtain ⟨u, hu, rfl⟩ := hr
      exact .inr (h u hu)
    · refine .inl (List.filter_eq_nil_iff.mpr fun u hu => ?_)
      simpa using fun e => hr ⟨u, hu, e⟩

instance (log : List (Use ρ)) : Decidable (ReleasedOnce log) := decidable_of_iff' _ releasedOnce_iff

theorem usesOf_append (r : ρ) (xs ys : List (Use ρ)) : usesOf r (xs ++ ys) = usesOf r xs ++ usesOf r ys :=
  List.filter_append ..

/-! ## Parties with resources of their own -/

variable [DecidableEq ι]

theorem usesOf_tag (i j : ι) (r : ρ) (log : List (Use ρ)) :
    usesOf (j, r) (log.map (Use.tag i)) = if i = j then (usesOf r log).map (Use.tag i) else [] := by
  unfold usesOf
  rw [List.filter_map]
  split
  · rename_i e
    subst e
    congr 1
    exact List.filter_congr fun u _ => by simp
  · rename_i e
    rw [List.map_eq_nil_iff, List.filter_eq_nil_iff]
    intro u _
    simp [e]

/-- The uses of one party among those of all of them. -/
theorem usesOf_flatMap {is : List ι} (hn : is.Nodup) (f : ι → List (Use ρ)) (j : ι) (r : ρ) :
    usesOf (j, r) (is.flatMap fun i => (f i).map (Use.tag i)) =
      if j ∈ is then (usesOf r (f j)).map (Use.tag j) else [] := by
  induction is with
  | nil => rfl
  | cons i is ih =>
    obtain ⟨hi, hn⟩ := List.nodup_cons.mp hn
    rw [List.flatMap_cons, usesOf_append, ih hn, usesOf_tag]
    by_cases e : i = j
    · subst e
      simp [hi]
    · simp [e, Ne.symm e]

/-- The parties' logs one after the other, twice over. -/
theorem releasedOnce_parties {is js : List ι} (hi : is.Nodup) (hj : js.Nodup) (hmem : ∀ i, i ∈ js ↔ i ∈ is)
    (f g : ι → List (Use ρ)) :
    ReleasedOnce ((is.flatMap fun i => (f i).map (Use.tag i)) ++ js.flatMap fun i => (g i).map (Use.tag i)) ↔
      ∀ i ∈ is, ReleasedOnce (f i ++ g i) := by
  have huses : ∀ i r, usesOf (i, r) ((is.flatMap fun i => (f i).map (Use.tag i)) ++
      js.flatMap fun i => (g i).map (Use.tag i)) =
        if i ∈ is then (usesOf r (f i ++ g i)).map (Use.tag i) else [] := by
    intro i r
    rw [usesOf_append, usesOf_flatMap hi, usesOf_flatMap hj, usesOf_append]
    by_cases h : i ∈ is
    · simp [h, (hmem i).mpr h]
    · simp [h, mt (hmem i).mp h]
  constructor
  · intro h i hmem r
    rcases h (i, r) with h | h <;> rw [huses, if_pos hmem] at h
    · exact .inl (List.map_eq_nil_iff.mp h)
    · exact .inr (List.map_injective_iff.mpr (tag_injective i) h)
  · rintro h ⟨i, r⟩
    rw [huses]
    by_cases hm : i ∈ is
    · rw [if_pos hm]
      rcases h i hm r with h | h
      · exact .inl (by rw [h]; rfl)
      · exact .inr (by rw [h]; rfl)
    · exact .inl (if_neg hm)

end

/-! ## Stages -/

/-- A call, and what is done with its failure, which ends the procedure, and its success. -/
structure Stage (κ σ : Type*) where
  call : κ
  failed : σ → σ
  done : σ → σ

variable {κ σ : Type*}

/-- Returns 0, or -1 if a call fails. -/
def runStages (ok : κ → Bool) : List (Stage κ σ) → σ → Int × σ
  | [], s => (0, s)
  | t :: ts, s => if ok t.call then runStages ok ts (t.done s) else (-1, t.failed s)

theorem runStages_eq_zero (ok : κ → Bool) (ts : List (Stage κ σ)) (s : σ) :
    (runStages ok ts s).1 = 0 ↔ ∀ t ∈ ts, ok t.call = true := by
  induction ts generalizing s with
  | nil => simp [runStages]
  | cons t ts ih =>
    rw [runStages, List.forall_mem_cons]
    split
    · rename_i h
      simp [ih, h]
    · rename_i h
      simp [h]

def firstFailure (ok : κ → Bool) (ts : List (Stage κ σ)) : Option κ :=
  (ts.map Stage.call).find? fun c => !ok c

theorem runStages_firstFailure [DecidableEq κ] (ok : κ → Bool) {ts : List (Stage κ σ)}
    (hn : (ts.map Stage.call).Nodup) (s : σ) :
    runStages (fun c => decide (firstFailure ok ts ≠ some c)) ts s = runStages ok ts s := by
  induction ts generalizing s with
  | nil => rfl
  | cons t ts ih =>
    obtain ⟨ht, hn⟩ := List.nodup_cons.mp hn
    rcases hok : ok t.call with _ | _
    · have hf : firstFailure ok (t :: ts) = some t.call := List.find?_cons_of_pos (by simp [hok])
      simp [runStages, hf, hok]
    · have hf : firstFailure ok (t :: ts) = firstFailure ok ts := List.find?_cons_of_neg (by simp [hok])
      have hne : firstFailure ok ts ≠ some t.call := fun e => ht (List.mem_of_find?_eq_some e)
      rw [hf, runStages, runStages, hok, decide_eq_true hne, ih hn]

/-- The calls that can be the first to fail, and `none` for a success. -/
def failures (ts : List (Stage κ σ)) : List (Option κ) := none :: ts.map fun t => some t.call

theorem firstFailure_mem (ok : κ → Bool) (ts : List (Stage κ σ)) : firstFailure ok ts ∈ failures ts := by
  rcases h : firstFailure ok ts with _ | c
  · exact List.mem_cons_self
  · obtain ⟨t, ht, rfl⟩ := List.mem_map.mp (List.mem_of_find?_eq_some h)
    exact List.mem_cons_of_mem _ (List.mem_map.mpr ⟨t, ht, rfl⟩)

/-- What holds for each first failure holds for all results. -/
theorem runStages_cases [DecidableEq κ] {ts : List (Stage κ σ)} {s : σ} {P : Option κ → σ → Prop}
    (hn : (ts.map Stage.call).Nodup)
    (h : ∀ f ∈ failures ts, P f (runStages (fun c => decide (f ≠ some c)) ts s).2) (ok : κ → Bool) :
    P (firstFailure ok ts) (runStages ok ts s).2 := by
  rw [← runStages_firstFailure ok hn]
  exact h _ (firstFailure_mem ok ts)

end Ksight.Lib

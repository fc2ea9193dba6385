/-
  Ksight.Lib.Tally — a bounded map that counts keys: a key's first occurrence inserts 1, each
  later one adds 1 to its entry, and nothing is ever removed.

  When the map is full a new key has no entry, and never gets one: each of its occurrences is
  taken for the first.

  - `counted_tally`: the map after any list of keys. A key's entry is the number of its
    occurrences if the first of them came when fewer than `cap` other keys had (`Admitted`),
    and otherwise there is none.
  - `numbered_iff`: every occurrence is given its number if and only if a key that is not
    admitted does not occur again.
-/

import Mathlib.Data.List.Count
import Ksight.Lib.BoundedMap

namespace Ksight.Lib.Tally

variable {κ : Type} [DecidableEq κ] {cap : Nat}

/-- One occurrence: the number it is given, and the map. -/
def bump (m : BoundedMap κ UInt64 cap) (k : κ) : UInt64 × BoundedMap κ UInt64 cap :=
  let n := (m.lookup k).elim 1 (· + 1)
  (n, (m.update k n).getD m)

def tally (cap : Nat) (ks : List κ) : BoundedMap κ UInt64 cap := ks.foldl (fun m k => (bump m k).2) .empty

/-- The key's first occurrence found room. -/
def Admitted (cap : Nat) (ks : List κ) (k : κ) : Prop :=
  ∃ a b, ks = a ++ k :: b ∧ k ∉ a ∧ a.toFinset.card < cap

/-- Every occurrence is given its number. -/
def Numbered (cap : Nat) (ks : List κ) : Prop :=
  ∀ a k b, ks = a ++ k :: b → (bump (tally cap a) k).1 = UInt64.ofNat (a.count k + 1)

theorem tally_snoc (ks : List κ) (x : κ) : tally cap (ks ++ [x]) = (bump (tally cap ks) x).2 := by
  simp [tally, List.foldl_append]

theorem lookup_bump (m : BoundedMap κ UInt64 cap) (k x : κ) :
    (bump m k).2.lookup x = if x = k ∧ m.HasRoom k then some (bump m k).1 else m.lookup x :=
  BoundedMap.lookup_getD_update m k _ x

/-! ## Admission -/

theorem admitted_snoc {ks : List κ} {x k : κ} :
    Admitted cap (ks ++ [x]) k ↔ Admitted cap ks k ∨ k = x ∧ x ∉ ks ∧ ks.toFinset.card < cap := by
  constructor
  · rintro ⟨a, b, heq, ha, hroom⟩
    rcases List.eq_nil_or_concat b with rfl | ⟨b', y, rfl⟩
    · obtain ⟨rfl, hx⟩ := List.append_inj' heq rfl
      cases hx
      exact .inr ⟨rfl, ha, hroom⟩
    · have hks : ks ++ [x] = (a ++ k :: b') ++ [y] := by simpa using heq
      obtain ⟨rfl, -⟩ := List.append_inj' hks rfl
      exact .inl ⟨a, b', rfl, ha, hroom⟩
  · rintro (⟨a, b, rfl, ha, hroom⟩ | ⟨rfl, hx, hroom⟩)
    · exact ⟨a, b ++ [x], by simp, ha, hroom⟩
    · exact ⟨ks, [], rfl, hx, hroom⟩

theorem Admitted.mem {ks : List κ} {k : κ} (h : Admitted cap ks k) : k ∈ ks := by
  obtain ⟨a, b, rfl, -⟩ := h
  simp

/-- Of a key that has been refused the first occurrence found the map full, as it is since. -/
theorem full_of_refused {ks : List κ} {k : κ} (hk : k ∈ ks) (h : ¬ Admitted cap ks k) : cap ≤ ks.toFinset.card := by
  obtain ⟨a, b, rfl, ha⟩ := List.eq_append_cons_of_mem hk
  have hfull : cap ≤ a.toFinset.card := not_lt.mp fun hroom => h ⟨a, b, rfl, ha, hroom⟩
  refine hfull.trans (Finset.card_le_card ?_)
  rw [List.toFinset_append]
  exact Finset.subset_union_left

theorem not_admitted_of_full {a b : List κ} {k : κ} (hk : k ∉ a) (hfull : ¬ a.toFinset.card < cap) :
    ¬ Admitted cap (a ++ k :: b) k := by
  rintro ⟨a', b', heq, ha', hroom⟩
  -- both split the list at the first `k`
  rcases List.append_eq_append_iff.mp heq with ⟨c, rfl, hc⟩ | ⟨c, rfl, hc⟩
  · cases c with
    | nil => exact hfull (by simpa using hroom)
    | cons y c =>
      cases hc
      exact ha' (by simp)
  · cases c with
    | nil => exact hfull (by simpa using hroom)
    | cons y c =>
      cases hc
      exact hk (by simp)

/-- The map is full exactly when as many keys have occurred. -/
structure Counted (cap : Nat) (ks : List κ) (m : BoundedMap κ UInt64 cap) : Prop where
  admitted : ∀ k, Admitted cap ks k → m.lookup k = some (UInt64.ofNat (ks.count k))
  refused : ∀ k, ¬ Admitted cap ks k → m.lookup k = none
  size : m.keys.card = min cap ks.toFinset.card

theorem Counted.mem_keys {ks : List κ} {m : BoundedMap κ UInt64 cap} (h : Counted cap ks m) {k : κ} :
    k ∈ m.keys ↔ Admitted cap ks k := by
  rw [BoundedMap.mem_keys]
  by_cases hk : Admitted cap ks k
  · exact iff_of_true ⟨_, h.admitted k hk⟩ hk
  · refine iff_of_false ?_ hk
    rintro ⟨v, hv⟩
    rw [h.refused k hk] at hv
    cases hv

/-- There is room for an occurrence of `x` if and only if it makes `x` admitted, or `x` is. -/
theorem Counted.room {ks : List κ} {m : BoundedMap κ UInt64 cap} (h : Counted cap ks m) (x : κ) :
    m.HasRoom x ↔ Admitted cap (ks ++ [x]) x := by
  rw [BoundedMap.HasRoom, h.mem_keys, h.size, admitted_snoc]
  by_cases hx : Admitted cap ks x
  · exact iff_of_true (.inl hx) (.inl hx)
  · have hlt : min cap ks.toFinset.card < cap ↔ ks.toFinset.card < cap := by omega
    rw [hlt]
    constructor
    · rintro (hx' | hroom)
      · exact absurd hx' hx
      · refine .inr ⟨rfl, fun hmem => ?_, hroom⟩
        exact absurd (full_of_refused hmem hx) (not_le.mpr hroom)
    · rintro (hx' | ⟨-, -, hroom⟩)
      · exact absurd hx' hx
      · exact .inr hroom

theorem Counted.bump {ks : List κ} {m : BoundedMap κ UInt64 cap} (h : Counted cap ks m) {x : κ}
    (hx : Admitted cap (ks ++ [x]) x) : (bump m x).1 = UInt64.ofNat (ks.count x + 1) := by
  rw [UInt64.ofNat_add]
  rcases admitted_snoc.mp hx with hold | ⟨-, hnew, -⟩
  · simp only [Tally.bump, h.admitted x hold, Option.elim_some]
    rfl
  · have hnone := h.refused x fun hold => hnew hold.mem
    simp only [Tally.bump, hnone, Option.elim_none, List.count_eq_zero.mpr hnew]
    rfl

theorem Counted.bump_refused {ks : List κ} {m : BoundedMap κ UInt64 cap} (h : Counted cap ks m) {x : κ}
    (hx : ¬ Admitted cap ks x) : (Tally.bump m x).1 = 1 := by
  simp only [Tally.bump, h.refused x hx, Option.elim_none]

theorem Counted.snoc {ks : List κ} {m : BoundedMap κ UInt64 cap} (h : Counted cap ks m) (x : κ) :
    Counted cap (ks ++ [x]) (Tally.bump m x).2 := by
  have hlookup := lookup_bump m x
  have hcount : ∀ k, (ks ++ [x]).count k = ks.count k + if k = x then 1 else 0 := fun k => by
    by_cases hk : k = x
    · subst hk
      simp
    · simp [hk, Ne.symm hk]
  have hold : ∀ k, k ≠ x → (Admitted cap (ks ++ [x]) k ↔ Admitted cap ks k) := fun k hk => by
    rw [admitted_snoc]
    exact or_iff_left fun h => hk h.1
  constructor
  · intro k hk
    rw [hlookup, hcount]
    by_cases hkx : k = x
    · subst hkx
      rw [if_pos ⟨rfl, (h.room k).mpr hk⟩, if_pos rfl, h.bump hk]
    · rw [if_neg fun h => hkx h.1, if_neg hkx]
      exact h.admitted k ((hold k hkx).mp hk)
  · intro k hk
    rw [hlookup]
    by_cases hkx : k = x
    · subst hkx
      rw [if_neg fun hroom => hk ((h.room k).mp hroom.2)]
      exact h.refused k fun hadm => hk (admitted_snoc.mpr (.inl hadm))
    · rw [if_neg fun h => hkx h.1]
      exact h.refused k fun hadm => hk ((hold k hkx).mpr hadm)
  · have hkeys : ∀ k, k ∈ (Tally.bump m x).2.keys ↔ k ∈ m.keys ∨ k = x ∧ m.HasRoom x := fun k => by
      rw [BoundedMap.mem_keys, hlookup, BoundedMap.mem_keys]
      by_cases hk : k = x ∧ m.HasRoom x
      · simp [hk]
      · simp [hk]
    have htoFinset : (ks ++ [x]).toFinset = insert x ks.toFinset := by
      ext k
      simp
    rw [htoFinset]
    by_cases hx : x ∈ ks
    · rw [Finset.insert_eq_of_mem (List.mem_toFinset.mpr hx), ← h.size]
      congr 1
      ext k
      rw [hkeys]
      refine or_iff_left_of_imp ?_
      rintro ⟨rfl, hroom⟩
      have := (admitted_snoc.mp ((h.room k).mp hroom)).resolve_right fun h => h.2.1 hx
      exact h.mem_keys.mpr this
    · rw [Finset.card_insert_of_notMem fun hmem => hx (List.mem_toFinset.mp hmem)]
      have hnot : x ∉ m.keys := fun hmem => hx (h.mem_keys.mp hmem).mem
      have hsize := h.size
      by_cases hroom : m.HasRoom x
      · have hins : (Tally.bump m x).2.keys = insert x m.keys := by
          ext k
          rw [hkeys, Finset.mem_insert, or_comm]
          simp [hroom]
        have hlt := hroom.resolve_left hnot
        rw [hins, Finset.card_insert_of_notMem hnot]
        omega
      · have hsame : (Tally.bump m x).2.keys = m.keys := by
          ext k
          rw [hkeys]
          simp [hroom]
        have hge : ¬ m.keys.card < cap := fun hlt => hroom (.inr hlt)
        rw [hsame]
        omega

theorem counted_tally (ks : List κ) : Counted cap ks (tally cap ks) := by
  induction ks using List.reverseRecOn with
  | nil =>
    refine ⟨?_, fun _ _ => BoundedMap.lookup_empty _, by simp [tally, BoundedMap.keys, BoundedMap.empty]⟩
    rintro k ⟨a, b, heq, -⟩
    simp at heq
  | append_singleton ks x ih =>
    rw [tally_snoc]
    exact ih.snoc x

/-- The numbers are right if and only if no key occurs again whose first occurrence found the
    map full. -/
theorem numbered_iff {ks : List κ} :
    Numbered cap ks ↔ ∀ a k b, ks = a ++ k :: b → k ∉ a → a.toFinset.card < cap ∨ k ∉ b := by
  constructor
  · intro h a k b hks hk
    by_contra hcon
    obtain ⟨hfull, hagain⟩ := not_or.mp hcon
    obtain ⟨u, v, rfl, hu⟩ := List.eq_append_cons_of_mem (not_not.mp hagain)
    have hrefused := not_admitted_of_full (b := u) hk hfull
    have hnum := h (a ++ k :: u) k v (by rw [hks]; simp)
    rw [(counted_tally _).bump_refused hrefused, List.count_append, List.count_cons_self,
      List.count_eq_zero.mpr hk, List.count_eq_zero.mpr hu] at hnum
    exact absurd hnum (by decide)
  · intro h a k b hks
    by_cases hk : k ∈ a
    · refine (counted_tally a).bump (admitted_snoc.mpr (.inl ?_))
      obtain ⟨u, v, rfl, hu⟩ := List.eq_append_cons_of_mem hk
      have hagain : k ∈ v ++ k :: b := by simp
      exact ⟨u, v, rfl, hu, (h u k (v ++ k :: b) (by rw [hks]; simp) hu).resolve_right (not_not.mpr hagain)⟩
    · -- the first occurrence is given 1 whether there is room or not
      rw [(counted_tally a).bump_refused fun hadm => hk hadm.mem, List.count_eq_zero.mpr hk]
      rfl

end Ksight.Lib.Tally

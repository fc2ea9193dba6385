/-
  Ksight.Lib.BoundedMap — a hash map that holds at most `cap` keys, as a kernel gives
  it to the programs it runs.

  An insertion of a new key into a full map fails and leaves the map as it was; an
  update of a key the map holds always succeeds. `updateNoExist` refuses a key the map
  holds. `modify` writes through the pointer a lookup returned: it changes the value in
  place and does nothing for an absent key. The capacity is part of the type, so no
  operation can build a map past it.

  Everything a proof needs of a map is its `lookup`: two maps with equal lookups are
  equal (`ext`), and each operation has its lookup lemmas.
-/

import Mathlib.Data.Finmap

namespace Ksight.Lib

structure BoundedMap (κ ν : Type) [DecidableEq κ] (cap : Nat) where
  elems : Finmap fun _ : κ => ν
  room : elems.keys.card ≤ cap

namespace BoundedMap

variable {κ ν : Type} [DecidableEq κ] {cap : Nat}

def empty : BoundedMap κ ν cap := ⟨∅, by simp⟩

def lookup (m : BoundedMap κ ν cap) (k : κ) : Option ν := m.elems.lookup k

def keys (m : BoundedMap κ ν cap) : Finset κ := m.elems.keys

theorem keys_insert (m : Finmap fun _ : κ => ν) (k : κ) (v : ν) :
    (m.insert k v).keys = Insert.insert k m.keys := by
  ext j; simp [Finmap.mem_keys, Finmap.mem_insert]

/-- An update of the key succeeds. -/
def HasRoom (m : BoundedMap κ ν cap) (k : κ) : Prop := k ∈ m.keys ∨ m.keys.card < cap

instance (m : BoundedMap κ ν cap) (k : κ) : Decidable (m.HasRoom k) := inferInstanceAs (Decidable (_ ∨ _))

theorem room_insert (m : BoundedMap κ ν cap) {k : κ} (v : ν) (h : m.HasRoom k) :
    (m.elems.insert k v).keys.card ≤ cap := by
  rw [keys_insert]
  rcases h with h | h
  · exact (congrArg Finset.card (Finset.insert_eq_self.mpr h)).trans_le m.room
  · exact (Finset.card_insert_le _ _).trans h

/-- Insert or replace; `none` when the key is new and the map is full. -/
def update (m : BoundedMap κ ν cap) (k : κ) (v : ν) : Option (BoundedMap κ ν cap) :=
  if h : m.HasRoom k then some ⟨m.elems.insert k v, m.room_insert v h⟩ else none

/-- Insert only; `none` when the map holds the key or is full. -/
def updateNoExist (m : BoundedMap κ ν cap) (k : κ) (v : ν) : Option (BoundedMap κ ν cap) :=
  if k ∈ m.keys then none else m.update k v

def delete (m : BoundedMap κ ν cap) (k : κ) : BoundedMap κ ν cap :=
  ⟨m.elems.erase k, by
    rw [Finmap.keys_erase]
    exact (Finset.card_erase_le).trans m.room⟩

def modify (m : BoundedMap κ ν cap) (k : κ) (f : ν → ν) : BoundedMap κ ν cap :=
  match h : m.lookup k with
  | some v =>
    ⟨m.elems.insert k (f v), m.room_insert _ (.inl (Finmap.mem_keys.mpr (Finmap.mem_of_lookup_eq_some h)))⟩
  | none => m

/-- The update of an LRU map: a new key takes the place of `victim` in a full map. -/
def updateLru (m : BoundedMap κ ν cap) (victim k : κ) (v : ν) : BoundedMap κ ν cap :=
  match m.update k v with
  | some n => n
  | none => ((m.delete victim).update k v).getD m

/-- The value under `k`, which is `init` if there was none; `none` when that does not fit. -/
def lookupOrTryInit (m : BoundedMap κ ν cap) (k : κ) (init : ν) : Option (ν × BoundedMap κ ν cap) :=
  match m.lookup k with
  | some v => some (v, m)
  | none => (m.update k init).map fun n => (init, n)

/-- The same of an LRU map. -/
def lookupOrTryInitLru (m : BoundedMap κ ν cap) (victim k : κ) (init : ν) : Option (ν × BoundedMap κ ν cap) :=
  match m.lookup k with
  | some v => some (v, m)
  | none => ((m.updateLru victim k init).lookup k).map fun v => (v, m.updateLru victim k init)

/-! ## Lookups -/

@[ext] theorem ext {m n : BoundedMap κ ν cap} (h : ∀ k, m.lookup k = n.lookup k) : m = n := by
  cases m; cases n
  simp only [mk.injEq]
  exact Finmap.ext_lookup h

theorem mem_keys {m : BoundedMap κ ν cap} {k : κ} : k ∈ m.keys ↔ ∃ v, m.lookup k = some v := by
  rw [keys, Finmap.mem_keys, Finmap.mem_iff]; rfl

@[simp] theorem lookup_empty (k : κ) : (empty : BoundedMap κ ν cap).lookup k = none := Finmap.lookup_empty k

@[simp] theorem lookup_delete_self (m : BoundedMap κ ν cap) (k : κ) : (m.delete k).lookup k = none :=
  Finmap.lookup_erase k _

theorem lookup_delete_ne (m : BoundedMap κ ν cap) {k j : κ} (h : j ≠ k) :
    (m.delete k).lookup j = m.lookup j :=
  Finmap.lookup_erase_ne h

theorem lookup_delete (m : BoundedMap κ ν cap) (k j : κ) :
    (m.delete k).lookup j = if j = k then none else m.lookup j := by
  split
  · subst j; exact m.lookup_delete_self k
  · exact m.lookup_delete_ne ‹_›

/-- A successful update is a write of the one key. -/
theorem lookup_update {m n : BoundedMap κ ν cap} {k : κ} {v : ν} (h : m.update k v = some n) (j : κ) :
    n.lookup j = if j = k then some v else m.lookup j := by
  unfold update at h
  split at h
  · cases h
    split
    · subst j; exact Finmap.lookup_insert _
    · exact Finmap.lookup_insert_of_ne _ ‹_›
  · cases h

theorem update_eq_none {m : BoundedMap κ ν cap} {k : κ} {v : ν} :
    m.update k v = none ↔ k ∉ m.keys ∧ m.keys.card = cap := by
  have := m.room
  unfold update
  split
  · rename_i h
    simp only [reduceCtorEq, false_iff, not_and]
    intro hk
    rcases h with h | h
    · exact absurd h hk
    · exact h.ne
  · rename_i h
    obtain ⟨hk, hcard⟩ := not_or.mp h
    simp only [true_iff]
    exact ⟨hk, le_antisymm m.room (not_lt.mp hcard)⟩

theorem room_of_update {m n : BoundedMap κ ν cap} {k : κ} {v : ν} (h : m.update k v = some n) : m.HasRoom k := by
  by_contra hr
  rw [update, dif_neg hr] at h
  cases h

theorem update_room {m : BoundedMap κ ν cap} {k : κ} (h : m.HasRoom k) (v : ν) :
    ∃ n, m.update k v = some n ∧ ∀ j, n.lookup j = if j = k then some v else m.lookup j := by
  have hu : m.update k v = some ⟨m.elems.insert k v, m.room_insert v h⟩ := dif_pos h
  exact ⟨_, hu, lookup_update hu⟩

/-- The map after an update whose result nobody reads. -/
theorem lookup_getD_update (m : BoundedMap κ ν cap) (k : κ) (v : ν) (j : κ) :
    ((m.update k v).getD m).lookup j = if j = k ∧ m.HasRoom k then some v else m.lookup j := by
  by_cases h : m.HasRoom k
  · obtain ⟨n, hu, hl⟩ := update_room h v
    simp only [hu, Option.getD_some, hl, h, and_true]
  · rw [update, dif_neg h, Option.getD_none, if_neg fun hj => h hj.2]

theorem lookup_getD_update_room {m : BoundedMap κ ν cap} {k : κ} (h : m.HasRoom k) (v : ν) (j : κ) :
    ((m.update k v).getD m).lookup j = if j = k then some v else m.lookup j := by
  simp only [lookup_getD_update, h, and_true]

/-- It has the value under its key, if any. -/
theorem lookup_getD_update_some {m : BoundedMap κ ν cap} {k j : κ} {v w : ν}
    (h : ((m.update k v).getD m).lookup j = some w) : j = k ∧ w = v ∨ j ≠ k ∧ m.lookup j = some w := by
  rw [lookup_getD_update] at h
  by_cases hj : j = k
  · subst hj
    have hroom : m.HasRoom j := by
      by_contra hr
      rw [if_neg fun hj => hr hj.2] at h
      exact hr (.inl (mem_keys.mpr ⟨w, h⟩))
    rw [if_pos ⟨rfl, hroom⟩] at h
    exact .inl ⟨rfl, (Option.some.inj h).symm⟩
  · rw [if_neg fun h => hj h.1] at h
    exact .inr ⟨hj, h⟩

theorem lookupOrTryInit_room {m : BoundedMap κ ν cap} {k : κ} (h : m.HasRoom k) (init : ν) :
    ∃ n, m.lookupOrTryInit k init = some ((m.lookup k).getD init, n) ∧
      ∀ j, n.lookup j = if j = k then some ((m.lookup k).getD init) else m.lookup j := by
  unfold lookupOrTryInit
  split
  · rename_i v hv
    refine ⟨m, by simp [hv], fun j => ?_⟩
    by_cases e : j = k
    · subst e
      simp [hv]
    · simp [e]
  · rename_i hv
    obtain ⟨n, hu, hl⟩ := update_room h init
    refine ⟨n, by rw [hu, hv]; rfl, fun j => ?_⟩
    rw [hv]
    exact hl j

theorem lookup_updateLru {m : BoundedMap κ ν cap} {k : κ} (h : m.HasRoom k) (victim : κ)
    (v : ν) (j : κ) :
    (m.updateLru victim k v).lookup j = if j = k then some v else m.lookup j := by
  obtain ⟨n, hu, hl⟩ := update_room h v
  rw [updateLru, hu]
  exact hl j

/-- An update of an LRU map may lose an entry; it makes none but its own. -/
theorem lookup_updateLru_some {m : BoundedMap κ ν cap} {victim k j : κ} {v w : ν}
    (h : (m.updateLru victim k v).lookup j = some w) : j = k ∧ w = v ∨ m.lookup j = some w := by
  unfold updateLru at h
  split at h
  · rename_i n hn
    rw [lookup_update hn] at h
    split at h
    · exact .inl ⟨‹_›, (Option.some.inj h).symm⟩
    · exact .inr h
  · rcases hd : (m.delete victim).update k v with _ | n
    · rw [hd] at h
      exact .inr h
    · rw [hd, Option.getD_some, lookup_update hd] at h
      split at h
      · exact .inl ⟨‹_›, (Option.some.inj h).symm⟩
      · rw [lookup_delete] at h
        split at h
        · cases h
        · exact .inr h

theorem lookupOrTryInitLru_some {m n : BoundedMap κ ν cap} {victim k : κ} {init v : ν}
    (h : m.lookupOrTryInitLru victim k init = some (v, n)) :
    n.lookup k = some v ∧ v = (m.lookup k).getD init ∧
      ∀ j, j ≠ k → ∀ w, n.lookup j = some w → m.lookup j = some w := by
  unfold lookupOrTryInitLru at h
  split at h
  · rename_i v' hv
    cases h
    exact ⟨hv, by rw [hv]; rfl, fun _ _ _ hw => hw⟩
  · rename_i hv
    obtain ⟨v', hl, he⟩ := Option.map_eq_some_iff.mp h
    cases he
    refine ⟨hl, ?_, fun j hj w hw => (lookup_updateLru_some hw).resolve_left fun h => hj h.1⟩
    rcases lookup_updateLru_some hl with h | h
    · rw [hv, h.2]
      rfl
    · rw [hv] at h
      cases h

theorem lookupOrTryInitLru_room {m : BoundedMap κ ν cap} {k : κ} (h : m.HasRoom k) (victim : κ) (init : ν) :
    ∃ n, m.lookupOrTryInitLru victim k init = some ((m.lookup k).getD init, n) ∧
      ∀ j, n.lookup j = if j = k then some ((m.lookup k).getD init) else m.lookup j := by
  unfold lookupOrTryInitLru
  split
  · rename_i v hv
    refine ⟨m, by rw [hv]; rfl, fun j => ?_⟩
    split
    · subst j
      rw [hv]; rfl
    · rfl
  · rename_i hv
    have hl := lookup_updateLru h victim init
    refine ⟨_, by rw [hl, if_pos rfl, hv]; rfl, fun j => ?_⟩
    rw [hl, hv]
    rfl

/-- A new key goes into a map that is not full. -/
theorem card_lt_of_update {m n : BoundedMap κ ν cap} {k : κ} {v : ν} (hn : m.lookup k = none)
    (h : m.update k v = some n) :
    m.keys.card < cap := by
  by_contra hfull
  have hk : k ∉ m.keys := fun hk => by
    obtain ⟨w, hw⟩ := mem_keys.mp hk
    rw [hn] at hw; cases hw
  rw [update_eq_none.mpr ⟨hk, le_antisymm m.room (not_lt.mp hfull)⟩] at h
  cases h

theorem updateNoExist_eq_some {m n : BoundedMap κ ν cap} {k : κ} {v : ν} :
    m.updateNoExist k v = some n ↔ m.lookup k = none ∧ m.update k v = some n := by
  unfold updateNoExist
  split
  · rename_i h
    obtain ⟨w, hw⟩ := mem_keys.mp h
    simp [hw]
  · rename_i h
    have : m.lookup k = none := by
      rcases hl : m.lookup k with _ | w
      · rfl
      · exact absurd (mem_keys.mpr ⟨w, hl⟩) h
    simp [this]

theorem lookup_modify (m : BoundedMap κ ν cap) (k : κ) (f : ν → ν) (j : κ) :
    (m.modify k f).lookup j = if j = k then (m.lookup k).map f else m.lookup j := by
  unfold modify
  split
  · rename_i v hv
    split
    · subst j
      simp only [hv, Option.map_some]
      exact Finmap.lookup_insert m.elems
    · exact Finmap.lookup_insert_of_ne _ ‹_›
  · rename_i hv
    split
    · subst j; rw [hv]; rfl
    · rfl

@[simp] theorem lookup_modify_self (m : BoundedMap κ ν cap) (k : κ) (f : ν → ν) :
    (m.modify k f).lookup k = (m.lookup k).map f := by rw [lookup_modify, if_pos rfl]

theorem lookup_modify_ne (m : BoundedMap κ ν cap) {k j : κ} (f : ν → ν) (h : j ≠ k) :
    (m.modify k f).lookup j = m.lookup j := by rw [lookup_modify, if_neg h]

end BoundedMap

end Ksight.Lib

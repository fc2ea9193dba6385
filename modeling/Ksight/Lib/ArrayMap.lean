/-
  Ksight.Lib.ArrayMap — BPF array maps.

  Every index below the number of entries has an entry from the start. An entry can be
  updated but not deleted.
-/

import Mathlib.Logic.Function.Basic

namespace Ksight.Lib

structure ArrayMap (ν : Type*) (cap : Nat) where
  values : Fin cap → ν

namespace ArrayMap

variable {ν : Type*} {cap : Nat}

/-- The entries a map is created with. -/
def replicate (v : ν) : ArrayMap ν cap := ⟨fun _ => v⟩

def lookup (m : ArrayMap ν cap) (k : Nat) : Option ν := if h : k < cap then some (m.values ⟨k, h⟩) else none

/-- `none` for an index that is out of range. -/
def update (m : ArrayMap ν cap) (k : Nat) (v : ν) : Option (ArrayMap ν cap) :=
  if h : k < cap then some ⟨Function.update m.values ⟨k, h⟩ v⟩ else none

/-- Fails whatever the index is. -/
def delete (_ : ArrayMap ν cap) (_ : Nat) : Option (ArrayMap ν cap) := none

theorem lookup_of_lt (m : ArrayMap ν cap) {k : Nat} (h : k < cap) : m.lookup k = some (m.values ⟨k, h⟩) :=
  dif_pos h

theorem update_of_lt (m : ArrayMap ν cap) {k : Nat} (h : k < cap) (v : ν) :
    m.update k v = some ⟨Function.update m.values ⟨k, h⟩ v⟩ := dif_pos h

/-- The map after an update whose result nobody reads. -/
theorem lookup_getD_update (m : ArrayMap ν cap) (k : Nat) (v : ν) {j : Nat} (hj : j < cap) :
    ((m.update k v).getD m).lookup j = if j = k then some v else m.lookup j := by
  by_cases h : j = k
  · subst j
    simp [m.update_of_lt hj, lookup_of_lt _ hj]
  · rw [if_neg h]
    by_cases hk : k < cap
    · have hne : (⟨j, hj⟩ : Fin cap) ≠ ⟨k, hk⟩ := fun e => h (Fin.mk.inj e)
      simp [m.update_of_lt hk, lookup_of_lt _ hj, Function.update_of_ne hne]
    · rw [update, dif_neg hk]
      rfl

@[simp] theorem delete_eq_none (m : ArrayMap ν cap) (k : Nat) : m.delete k = none := rfl

end ArrayMap

end Ksight.Lib

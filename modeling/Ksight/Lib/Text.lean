/-
  Ksight.Lib.Text — texts of lines, and numbers in base 16.

  A text is read back as its lines, if none of them has the end of a line inside
  (`getlines_unlines`). A number is read back from its digits, padded or not
  (`ofHex_hexPad`). A text that begins with a character the first part of a line does not
  have is found in the line if it is in the rest (`cons_infix_append`).
-/

import Mathlib.Data.List.Infix

namespace Ksight.Lib

/-! ## Lines -/

/-- The lines of a text, as `std::getline` reads them. -/
def getlines : List Char → List (List Char)
  | [] => []
  | c :: cs =>
    if c = '\n' then [] :: getlines cs
    else match getlines cs with
      | [] => [[c]]
      | l :: ls => (c :: l) :: ls

theorem getlines_append {l : List Char} (h : '\n' ∉ l) (rest : List Char) :
    getlines (l ++ '\n' :: rest) = l :: getlines rest := by
  induction l with
  | nil => rfl
  | cons c l ih =>
    obtain ⟨hc, hl⟩ := not_or.mp (mt List.mem_cons.mpr h)
    rw [List.cons_append, getlines, if_neg (Ne.symm hc), ih hl]

/-- The text of the lines. -/
def unlines (ls : List (List Char)) : List Char := ls.flatMap (· ++ ['\n'])

theorem getlines_unlines {ls : List (List Char)} (h : ∀ l ∈ ls, '\n' ∉ l) : getlines (unlines ls) = ls := by
  induction ls with
  | nil => rfl
  | cons l ls ih =>
    have hcons : unlines (l :: ls) = l ++ '\n' :: unlines ls := by simp [unlines]
    rw [hcons, getlines_append (h l List.mem_cons_self), ih fun k hk => h k (List.mem_cons_of_mem l hk)]

/-! ## Parts of a line -/

variable {α : Type*}

theorem takeWhile_append_stop {p : α → Bool} {l : List α} (h : ∀ a ∈ l, p a) {b : α} (hb : p b = false)
    (rest : List α) : (l ++ b :: rest).takeWhile p = l := by
  rw [List.takeWhile_append_of_pos h, List.takeWhile_cons_of_neg (by simpa using hb), List.append_nil]

theorem dropWhile_append_stop {p : α → Bool} {l : List α} (h : ∀ a ∈ l, p a) {b : α} (hb : p b = false)
    (rest : List α) : (l ++ b :: rest).dropWhile p = b :: rest := by
  rw [List.dropWhile_append_of_pos h, List.dropWhile_cons_of_neg (by simpa using hb)]

theorem dropWhile_append_none {p : α → Bool} {l : List α} (hne : l ≠ []) (h : ∀ a ∈ l, p a = false)
    (rest : List α) : (l ++ rest).dropWhile p = l ++ rest := by
  rcases l with _ | ⟨a, l⟩
  · exact absurd rfl hne
  · exact List.dropWhile_cons_of_neg (by simp [h a])

theorem cons_infix_append {a : α} {l h n : List α} (ha : a ∉ h) : a :: l <:+: h ++ n ↔ a :: l <:+: n := by
  induction h with
  | nil => rfl
  | cons b h ih =>
    obtain ⟨hab, hah⟩ := not_or.mp (mt List.mem_cons.mpr ha)
    rw [List.cons_append, List.infix_cons_iff, ih hah, or_iff_right]
    exact fun hp => hab (List.cons_prefix_cons.mp hp).1

/-! ## Base 16 -/

def ofHexDigit (c : Char) : Option Nat :=
  if '0' ≤ c ∧ c ≤ '9' then some (c.toNat - '0'.toNat)
  else if 'a' ≤ c ∧ c ≤ 'f' then some (c.toNat - 'a'.toNat + 10)
  else if 'A' ≤ c ∧ c ≤ 'F' then some (c.toNat - 'A'.toNat + 10)
  else none

def ofHex (cs : List Char) : Nat := cs.foldl (fun n c => 16 * n + (ofHexDigit c).getD 0) 0

/-- The digits, with zeros in front up to the width. -/
def hexPad (width n : Nat) : List Char := (Nat.toDigits 16 n).leftpad width '0'

theorem ofHexDigit_digitChar {d : Nat} (h : d < 16) : ofHexDigit d.digitChar = some d := by
  revert d
  decide

theorem isSome_of_isDigit {c : Char} (h : c.isDigit) : (ofHexDigit c).isSome := by
  have hrange : '0' ≤ c ∧ c ≤ '9' := by simpa [Char.isDigit, Char.le_def] using h
  rw [ofHexDigit, if_pos hrange]
  rfl

theorem ofHex_toDigits (n : Nat) : ofHex (Nat.toDigits 16 n) = n := by
  induction n using Nat.strongRecOn with
  | ind n ih =>
    by_cases hn : n < 16
    · simp [Nat.toDigits_of_lt_base hn, ofHex, ofHexDigit_digitChar hn]
    · have hmod : n % 16 < 16 := Nat.mod_lt n (by decide)
      have hdiv := ih (n / 16) (by omega)
      rw [ofHex] at hdiv
      rw [Nat.toDigits_of_base_le (by decide) (by omega), ofHex, List.foldl_append, hdiv]
      simp [ofHexDigit_digitChar hmod]
      omega

theorem isSome_of_mem_toDigits {n : Nat} {c : Char} (h : c ∈ Nat.toDigits 16 n) : (ofHexDigit c).isSome := by
  induction n using Nat.strongRecOn with
  | ind n ih =>
    by_cases hn : n < 16
    · rw [Nat.toDigits_of_lt_base hn, List.mem_singleton] at h
      rw [h, ofHexDigit_digitChar hn]
      rfl
    · have hmod : n % 16 < 16 := Nat.mod_lt n (by decide)
      rw [Nat.toDigits_of_base_le (by decide) (by omega), List.mem_append] at h
      rcases h with h | h
      · exact ih (n / 16) (by omega) h
      · rw [List.mem_singleton.mp h, ofHexDigit_digitChar hmod]
        rfl

theorem ofHex_hexPad (width n : Nat) : ofHex (hexPad width n) = n := by
  have hzeros : ∀ k, (List.replicate k '0').foldl (fun n c => 16 * n + (ofHexDigit c).getD 0) 0 = 0 := by
    intro k
    induction k with
    | zero => rfl
    | succ k ih => exact ih
  rw [hexPad, List.leftpad, ofHex, List.foldl_append, hzeros]
  exact ofHex_toDigits n

theorem isSome_of_mem_hexPad {width n : Nat} {c : Char} (h : c ∈ hexPad width n) : (ofHexDigit c).isSome := by
  rcases List.mem_append.mp h with h | h
  · rw [List.eq_of_mem_replicate h]
    rfl
  · exact isSome_of_mem_toDigits h

theorem hexPad_ne_nil (width n : Nat) : hexPad width n ≠ [] := by
  intro h
  exact Nat.toDigits_ne_nil (List.append_eq_nil_iff.mp h).2

end Ksight.Lib

/-
  Ksight.ProcImage.ExecQuote — the quoted arguments of execve
  (src/process/proc_image/src/proc_image.c: `print_info1` and `quoted_symbol`, option -q).

  Each string is printed between quotation marks. A quotation mark in it is printed with a
  backslash before it, a tab and a newline as a backslash and a letter, and a backslash as it
  is.

  The law: different lists of strings have different texts. `texts_differ_iff`: it holds of the
  lists that still differ when their tabs and newlines are spelt with a backslash and a letter.
  The quotation marks lose nothing, although a string may end in a backslash
  (`Ksight.Lib.Quoted`). `tab_looks_like_letter`: a tab and a backslash before the letter t
  look alike.
-/

import Ksight.Lib.Quoted
import Ksight.ProcImage.ExecArgs

namespace Ksight.ProcImage.ExecQuote

open Ksight.Lib
open ExecArgs (CStr ExecEvent terminated quotedSymbol printChars printChars_append shown printInfo1 maxArgs
  fullMaxArgsArr store_spec zeroed ls)

/-- A tab and a newline are spelt as they are printed. -/
def speltChar (c : UInt8) : List UInt8 := if c = 9 then [92, 116] else if c = 10 then [92, 110] else [c]

/-- What a text says of a string. -/
def spelt (s : CStr) : List UInt8 := s.bytes.flatMap speltChar

/-- The event of a whole list of strings. -/
structure IsOf (e : ExecEvent) (strs : List CStr) : Prop extends e.Holds strs where
  count : e.infoCount = strs.length

theorem quoted_eq_escape (s : CStr) : s.bytes.flatMap (shown true) = Quoted.escape 34 92 (spelt s) := by
  unfold Quoted.escape spelt
  rw [List.flatMap_assoc]
  refine List.flatMap_congr fun c _ => ?_
  by_cases h9 : c = 9
  · subst h9
    rfl
  by_cases h10 : c = 10
  · subst h10
    rfl
  by_cases h34 : c = 34
  · subst h34
    rfl
  · simp [shown, quotedSymbol, speltChar, h9, h10, h34]

/-- The rest of the text, from after the mark that opens a string. -/
theorem printChars_quote (s : CStr) (strs : List CStr) {count counter : Nat}
    (h : counter + strs.length + 1 = count) :
    printChars true count counter ((s :: strs).flatMap terminated) =
      Quoted.inside 34 92 32 (spelt s) (strs.map spelt) := by
  have hlt : counter < count := by omega
  induction strs generalizing s counter with
  | nil =>
    have hlast : ¬ counter + 1 < count := by
      rw [List.length_nil] at h
      omega
    rw [List.flatMap_singleton, terminated, printChars_append true hlt s.noNul, quoted_eq_escape]
    simp [printChars, hlt, hlast, Quoted.inside, Quoted.rest]
  | cons t strs ih =>
    have hmore : counter + 1 < count := by
      rw [List.length_cons] at h
      omega
    have hnext : counter + 1 + strs.length + 1 = count := by
      rw [List.length_cons] at h
      omega
    rw [List.flatMap_cons, terminated, List.append_assoc, printChars_append true hlt s.noNul, quoted_eq_escape,
      List.singleton_append, printChars, if_pos hlt, if_pos rfl, if_pos rfl, if_pos hmore, ih t hnext hmore]
    rfl

theorem printInfo1_quote {e : ExecEvent} {strs : List CStr} (h : IsOf e strs) (hmax : e.infoCount ≤ maxArgs) :
    printInfo1 true e = Quoted.quoted 34 92 32 (strs.map spelt) := by
  have hdots : e.infoCount ≠ maxArgs + 1 := by omega
  rw [printInfo1, h.chars, if_pos rfl, if_neg hdots, List.append_nil]
  cases strs with
  | nil => rfl
  | cons s strs =>
    have hcount : 0 + strs.length + 1 = e.infoCount := by rw [h.count, List.length_cons, Nat.zero_add]
    rw [printChars_quote s strs hcount]
    rfl

theorem text_eq_iff {e e' : ExecEvent} {strs strs' : List CStr} (h : IsOf e strs) (h' : IsOf e' strs')
    (hmax : e.infoCount ≤ maxArgs) (hmax' : e'.infoCount ≤ maxArgs) :
    printInfo1 true e = printInfo1 true e' ↔ strs.map spelt = strs'.map spelt := by
  rw [printInfo1_quote h hmax, printInfo1_quote h' hmax']
  exact ⟨Quoted.quoted_inj (by decide) (by decide) (by decide), congrArg _⟩

/-- The texts of two lists differ if and only if the lists differ as they are spelt. -/
theorem texts_differ_iff {e e' : ExecEvent} {strs strs' : List CStr} (h : IsOf e strs) (h' : IsOf e' strs')
    (hmax : e.infoCount ≤ maxArgs) (hmax' : e'.infoCount ≤ maxArgs) :
    printInfo1 true e ≠ printInfo1 true e' ↔ strs.map spelt ≠ strs'.map spelt :=
  not_congr (text_eq_iff h h' hmax hmax')

/-! ## Strings that spell nothing -/

/-- No backslash before a t or an n. -/
def Plain (bytes : List UInt8) : Prop := ¬ [92, 116] <:+: bytes ∧ ¬ [92, 110] <:+: bytes

theorem Plain.tail {c : UInt8} {cs : List UInt8} (h : Plain (c :: cs)) : Plain cs :=
  ⟨fun hi => h.1 (List.infix_cons hi), fun hi => h.2 (List.infix_cons hi)⟩

/-- What is spelt with a letter first has it first. -/
theorem head_of_spelt {x : UInt8} (hx : x = 116 ∨ x = 110) {bytes text : List UInt8}
    (h : bytes.flatMap speltChar = x :: text) : [x] <+: bytes := by
  cases bytes with
  | nil => cases h
  | cons c cs =>
    rw [List.flatMap_cons, speltChar] at h
    rcases hx with rfl | rfl <;> split at h
    · simp at h
    · split at h
      · simp at h
      · simpa using (List.cons.inj h).1.symm
    · simp at h
    · split at h
      · simp at h
      · simpa using (List.cons.inj h).1.symm

/-- A spelt tab or newline is no other character, behind a plain string. -/
theorem spelt_ne {x d : UInt8} (hx : x = 116 ∨ x = 110) {text ds : List UInt8} (hp : Plain (d :: ds))
    (hd : speltChar d = [d]) : 92 :: x :: text ≠ (d :: ds).flatMap speltChar := by
  intro h
  rw [List.flatMap_cons, hd, List.singleton_append, List.cons.injEq] at h
  obtain ⟨rfl, htext⟩ := h
  have hinfix : [92, x] <:+: 92 :: ds :=
    ((List.prefix_cons_inj 92).mpr (head_of_spelt hx htext.symm)).isInfix
  rcases hx with rfl | rfl
  · exact hp.1 hinfix
  · exact hp.2 hinfix

theorem speltChar_cases (c : UInt8) :
    c = 9 ∧ speltChar c = [92, 116] ∨ c = 10 ∧ speltChar c = [92, 110] ∨ speltChar c = [c] := by
  unfold speltChar
  split
  · exact .inl ⟨‹_›, rfl⟩
  · split
    · exact .inr (.inl ⟨‹_›, rfl⟩)
    · exact .inr (.inr rfl)

theorem speltChar_ne_nil (c : UInt8) : speltChar c ≠ [] := by
  rcases speltChar_cases c with ⟨-, h⟩ | ⟨-, h⟩ | h <;> simp [h]

theorem spelt_inj {bytes bytes' : List UInt8} (h : Plain bytes) (h' : Plain bytes')
    (heq : bytes.flatMap speltChar = bytes'.flatMap speltChar) : bytes = bytes' := by
  induction bytes generalizing bytes' with
  | nil =>
    cases bytes' with
    | nil => rfl
    | cons d ds => exact absurd (List.append_eq_nil_iff.mp heq.symm).1 (speltChar_ne_nil d)
  | cons c cs ih =>
    cases bytes' with
    | nil => exact absurd (List.append_eq_nil_iff.mp heq).1 (speltChar_ne_nil c)
    | cons d ds =>
      have hrest : ∀ {pre : List UInt8}, pre ++ cs.flatMap speltChar = pre ++ ds.flatMap speltChar → cs = ds :=
        fun hpre => ih h.tail h'.tail (List.append_cancel_left hpre)
      rcases speltChar_cases c with ⟨rfl, hc⟩ | ⟨rfl, hc⟩ | hc <;>
        rcases speltChar_cases d with ⟨rfl, hd⟩ | ⟨rfl, hd⟩ | hd
      · rw [List.flatMap_cons, List.flatMap_cons] at heq
        rw [hrest heq]
      · simp [hc, hd] at heq
      · rw [List.flatMap_cons, hc] at heq
        exact absurd heq (spelt_ne (.inl rfl) h' hd)
      · simp [hc, hd] at heq
      · rw [List.flatMap_cons, List.flatMap_cons] at heq
        rw [hrest heq]
      · rw [List.flatMap_cons, hc] at heq
        exact absurd heq (spelt_ne (.inr rfl) h' hd)
      · replace heq := heq.symm
        rw [List.flatMap_cons, hd] at heq
        exact absurd heq (spelt_ne (.inl rfl) h hc)
      · replace heq := heq.symm
        rw [List.flatMap_cons, hd] at heq
        exact absurd heq (spelt_ne (.inr rfl) h hc)
      · rw [List.flatMap_cons, List.flatMap_cons, hc, hd, List.singleton_append, List.singleton_append,
          List.cons.injEq] at heq
        rw [heq.1, ih h.tail h'.tail heq.2]

/-- Lists of plain strings that differ, differ as they are spelt, so that their texts differ. -/
theorem map_spelt_inj {strs strs' : List CStr} (h : ∀ s ∈ strs, Plain s.bytes)
    (h' : ∀ s ∈ strs', Plain s.bytes) (heq : strs.map spelt = strs'.map spelt) : strs = strs' := by
  induction strs generalizing strs' with
  | nil => exact (List.map_eq_nil_iff.mp heq.symm).symm
  | cons s strs ih =>
    obtain ⟨t, strs', rfl, ht, hts⟩ := List.map_eq_cons_iff.mp heq.symm
    have hbytes := spelt_inj (h s List.mem_cons_self) (h' t List.mem_cons_self) ht.symm
    cases s
    cases t
    cases hbytes
    rw [ih (fun s hs => h s (List.mem_cons_of_mem _ hs)) (fun s hs => h' s (List.mem_cons_of_mem _ hs)) hts.symm]

theorem plain_texts_differ {e e' : ExecEvent} {strs strs' : List CStr} (h : IsOf e strs) (h' : IsOf e' strs')
    (hmax : e.infoCount ≤ maxArgs) (hmax' : e'.infoCount ≤ maxArgs) (hp : ∀ s ∈ strs, Plain s.bytes)
    (hp' : ∀ s ∈ strs', Plain s.bytes) (hne : strs ≠ strs') : printInfo1 true e ≠ printInfo1 true e' :=
  fun heq => hne (map_spelt_inj hp hp' ((text_eq_iff h h' hmax hmax').mp heq))

/-! ## A tab -/

theorem exists_event (strs : List CStr) (h : (strs.flatMap terminated).length ≤ fullMaxArgsArr)
    (hc : strs.length ≤ maxArgs) :
    ∃ e, IsOf e strs ∧ e.infoCount ≤ maxArgs := by
  obtain ⟨buf, -, hbytes⟩ := store_spec zeroed 0 (by rwa [Nat.zero_add])
  rw [Nat.zero_add, List.take_zero, List.nil_append] at hbytes
  exact ⟨⟨1, 7, strs.length, (strs.flatMap terminated).length, true, buf⟩, ⟨⟨rfl, hbytes⟩, rfl⟩, hc⟩

/-- A string that ends in a backslash and two that are one behind the other. -/
theorem backslash_is_not_lost :
    ∃ e e', IsOf e [ls, ⟨[92], by decide⟩, ⟨[120], by decide⟩] ∧
      IsOf e' [ls, ⟨[92, 34, 32, 34, 120], by decide⟩] ∧ printInfo1 true e ≠ printInfo1 true e' := by
  obtain ⟨e, he, hmax⟩ := exists_event [ls, ⟨[92], by decide⟩, ⟨[120], by decide⟩] (by decide) (by decide)
  obtain ⟨e', he', hmax'⟩ := exists_event [ls, ⟨[92, 34, 32, 34, 120], by decide⟩] (by decide) (by decide)
  exact ⟨e, e', he, he', (texts_differ_iff he he' hmax hmax').mpr (by decide)⟩

/-- A tab looks like a backslash before the letter t. -/
theorem tab_looks_like_letter :
    ∃ e e', IsOf e [ls, ⟨[9], by decide⟩] ∧ IsOf e' [ls, ⟨[92, 116], by decide⟩] ∧
      e.infoCount ≤ maxArgs ∧ e'.infoCount ≤ maxArgs ∧ printInfo1 true e = printInfo1 true e' := by
  obtain ⟨e, he, hmax⟩ := exists_event [ls, ⟨[9], by decide⟩] (by decide) (by decide)
  obtain ⟨e', he', hmax'⟩ := exists_event [ls, ⟨[92, 116], by decide⟩] (by decide) (by decide)
  exact ⟨e, e', he, he', hmax, hmax', (text_eq_iff he he' hmax hmax').mpr (by decide)⟩

end Ksight.ProcImage.ExecQuote

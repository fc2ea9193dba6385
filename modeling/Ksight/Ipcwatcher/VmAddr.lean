/-
  Ksight.Ipcwatcher.VmAddr — the addresses at which a shared-memory object is mapped
  (src/ipc/ipcwatcher/src/ShmUtils.cpp: `getShmPath`, `getShmVmAddr`).

  `getShmPath` reads the link of a file descriptor and takes "/dev/shm" off its front.
  `getShmVmAddr` reads /proc/<pid>/maps, whose lines have the addresses first and the path of
  the mapped file last, and returns the addresses of the lines that have the stripped path
  anywhere in their text.

  The law: they are the addresses of the lines whose path is that of the object, in their order.

  - `ranges_iff`: the law holds if and only if no other line has the stripped path in its text,
    and no line of the object has the end of a line in its path, which is written `\012` there
    (`Exact`).
  - What is found of a path is found in the names (`infix_text_iff`). The object `/dev/shm/a`
    is given the lines of all files with "/a" in their path (`other_file_is_returned`), and one
    that is not there those with "None" (`missing_object_is_returned`).
-/

import Mathlib.Data.List.Nodup
import Mathlib.Data.List.TakeWhile
import Ksight.Lib.Text

namespace Ksight.Ipcwatcher.VmAddr

open Ksight.Lib

/-! ## The object -/

def devShm : List Char := ['/', 'd', 'e', 'v', '/', 's', 'h', 'm']

/-- `target` is what the link says, `none` where there is no link. -/
def getShmPath : Option (List Char) → List Char
  | none => ['N', 'o', 'n', 'e']
  | some target => if devShm.isPrefixOf target then target.drop devShm.length else target

/-! ## The lines -/

def isSpace (c : Char) : Bool := c ∈ [' ', '\t', '\n', '\x0b', '\x0c', '\r']

/-- What `strtoul` skips in base 16. -/
def skipHexPrefix : List Char → List Char
  | '0' :: x :: c :: cs =>
    if (x = 'x' ∨ x = 'X') ∧ (ofHexDigit c).isSome then c :: cs else '0' :: x :: c :: cs
  | cs => cs

/-- `std::stoul` in base 16; `none` where it throws. -/
def stoul (str : List Char) : Option UInt64 :=
  let s := str.dropWhile isSpace
  let negative := s.head? = some '-'
  let s := if s.head? = some '-' ∨ s.head? = some '+' then s.tail else s
  let digits := (skipHexPrefix s).takeWhile (ofHexDigit · |>.isSome)
  if digits = [] ∨ UInt64.size ≤ ofHex digits then none
  else some (if negative then 0 - UInt64.ofNat (ofHex digits) else UInt64.ofNat (ofHex digits))

def scanLine (shmPath line : List Char) (result : List UInt64) : Option (List UInt64) :=
  if shmPath <:+: line then
    let addrRange := (line.dropWhile isSpace).takeWhile (!isSpace ·)
    if '-' ∈ addrRange then do
      let startAddr ← stoul (addrRange.takeWhile (· ≠ '-'))
      let endAddr ← stoul (addrRange.dropWhile (· ≠ '-')).tail
      some (result ++ [startAddr, endAddr])
    else some result
  else some result

/-- `maps` is the content of the file, `none` where it cannot be opened. -/
def getShmVmAddr (maps : Option (List Char)) (shmPath : List Char) : Option (List UInt64) :=
  match maps with
  | none => some []
  | some content => (getlines content).foldlM (fun result line => scanLine shmPath line result) []

/-! ## The kernel's format -/

/-- A mapping; its name is the path of a file, or a word such as `[heap]`. -/
structure Entry where
  start : UInt64
  stop : UInt64
  read : Bool
  write : Bool
  exec : Bool
  shared : Bool
  pgoff : UInt64
  major : UInt32
  minor : UInt32
  ino : UInt64
  name : Option (List Char)
  nonempty : start < stop

/-- The end of a line is written in base 8. -/
def escape (name : List Char) : List Char := name.flatMap fun c => if c = '\n' then ['\\', '0', '1', '2'] else [c]

namespace Entry

def flag (b : Bool) (c : Char) : Char := if b then c else '-'

/-- All that comes after the addresses and before the name. -/
def rest (e : Entry) : List Char :=
  [flag e.read 'r', flag e.write 'w', flag e.exec 'x', if e.shared then 's' else 'p', ' '] ++ hexPad 8 e.pgoff.toNat ++
    ' ' :: hexPad 2 e.major.toNat ++ ':' :: hexPad 2 e.minor.toNat ++ ' ' :: Nat.toDigits 10 e.ino.toNat ++ [' ']

def header (e : Entry) : List Char :=
  hexPad 8 e.start.toNat ++ '-' :: (hexPad 8 e.stop.toNat ++ ' ' :: e.rest)

/-- A name begins in the column 73, or after the header where that is longer. -/
def text (e : Entry) : List Char :=
  match e.name with
  | none => e.header
  | some name => e.header ++ List.replicate (72 - e.header.length) ' ' ++ ' ' :: escape name

def range (e : Entry) : List UInt64 := [e.start, e.stop]

/-- The text is somewhere in the line. -/
def has (e : Entry) (shmPath : List Char) : Bool := shmPath <:+: e.text

/-- The mapping is of the object. -/
def isOf (e : Entry) (target : Option (List Char)) : Bool := target.any (e.name = some ·)

end Entry

/-- The mappings of a process, by their addresses. -/
structure MapsFile where
  entries : List Entry
  sorted : entries.Pairwise (·.stop ≤ ·.start)

def MapsFile.text (f : MapsFile) : List Char := unlines (f.entries.map Entry.text)

/-! ## The law -/

def MapsFile.ranges (f : MapsFile) (target : Option (List Char)) : List UInt64 :=
  (f.entries.filter (·.isOf target)).flatMap Entry.range

/-- The condition. -/
structure Exact (target : Option (List Char)) (f : MapsFile) : Prop where
  other : ∀ e ∈ f.entries, e.isOf target = false → ¬ getShmPath target <:+: e.text
  own : ∀ e ∈ f.entries, ∀ name ∈ target, e.name = some name → '\n' ∉ name

/-! ## Numbers -/

theorem ne_of_isSome {c d : Char} (hc : (ofHexDigit c).isSome) (hd : ofHexDigit d = none) : c ≠ d := by
  rintro rfl
  rw [hd] at hc
  exact nomatch hc

theorem isSpace_of_isSome {c : Char} (h : (ofHexDigit c).isSome) : isSpace c = false := by
  have hne : ∀ d, ofHexDigit d = none → c ≠ d := fun _ => ne_of_isSome h
  simp [isSpace, hne _ (show ofHexDigit ' ' = none by decide), hne _ (show ofHexDigit '\t' = none by decide),
    hne _ (show ofHexDigit '\n' = none by decide), hne _ (show ofHexDigit '\x0b' = none by decide),
    hne _ (show ofHexDigit '\x0c' = none by decide), hne _ (show ofHexDigit '\r' = none by decide)]

theorem skipHexPrefix_eq {s : List Char} (h : ∀ c ∈ s, (ofHexDigit c).isSome) : skipHexPrefix s = s := by
  unfold skipHexPrefix
  split
  · rename_i x c cs
    have hx := h x (by simp)
    rw [if_neg]
    rintro ⟨rfl | rfl, -⟩ <;> exact ne_of_isSome hx (by decide) rfl
  · rfl

/-- A number the kernel has written is read back. -/
theorem stoul_hexPad (width : Nat) (n : UInt64) : stoul (hexPad width n.toNat) = some n := by
  have hdigits : ∀ c ∈ hexPad width n.toNat, (ofHexDigit c).isSome := fun _ => isSome_of_mem_hexPad
  have hspace : (hexPad width n.toNat).dropWhile isSpace = hexPad width n.toNat := by
    rw [List.dropWhile_eq_self_iff]
    intro hpos
    simpa using isSpace_of_isSome (hdigits _ (List.getElem_mem hpos))
  have hhead : ∀ d, ofHexDigit d = none → (hexPad width n.toNat).head? ≠ some d := fun d hd h =>
    ne_of_isSome (hdigits d (List.mem_of_mem_head? h)) hd rfl
  have hall : (hexPad width n.toNat).takeWhile (ofHexDigit · |>.isSome) = hexPad width n.toNat :=
    List.takeWhile_eq_self_iff.mpr hdigits
  have hminus := hhead '-' (by decide)
  have hplus := hhead '+' (by decide)
  have hlt : ¬ UInt64.size ≤ n.toNat := Nat.not_le.mpr n.toNat_lt
  simp [stoul, hspace, hminus, hplus, skipHexPrefix_eq hdigits, hall, hexPad_ne_nil, ofHex_hexPad, hlt]

/-! ## A line -/

theorem not_mem_hexPad {width n : Nat} {d : Char} (h : ofHexDigit d = none) : d ∉ hexPad width n := fun hd =>
  ne_of_isSome (isSome_of_mem_hexPad hd) h rfl

/-- A character that a header never has. -/
def Foreign (c : Char) : Prop := ofHexDigit c = none ∧ c ∉ ['r', 'w', 'x', 's', 'p', '-', ':', ' ']

instance (c : Char) : Decidable (Foreign c) := inferInstanceAs (Decidable (_ ∧ _))

theorem not_mem_header (e : Entry) {c : Char} (h : Foreign c) : c ∉ e.header := by
  obtain ⟨hc, hlist⟩ := h
  have hdec : c ∉ Nat.toDigits 10 e.ino.toNat := fun hd =>
    ne_of_isSome (isSome_of_isDigit (Nat.isDigit_of_mem_toDigits (by decide) (by decide) hd)) hc rfl
  simp only [List.mem_cons, List.not_mem_nil, or_false, not_or] at hlist
  obtain ⟨hr, hw, hx, hs, hp, hdash, hcolon, hspace⟩ := hlist
  have hflag : ∀ (b : Bool) (d : Char), c ≠ d → c ≠ Entry.flag b d := by
    intro b d hd
    cases b
    · exact hdash
    · exact hd
  have hshared : c ≠ if e.shared then 's' else 'p' := by
    split
    · exact hs
    · exact hp
  simp [Entry.header, Entry.rest, not_mem_hexPad hc, hdec, hflag, hshared, hr, hw, hx, hdash, hcolon, hspace]

theorem not_mem_escape (name : List Char) : '\n' ∉ escape name := by
  intro h
  obtain ⟨c, -, hc⟩ := List.mem_flatMap.mp h
  split at hc
  · exact absurd hc (by decide)
  · exact ‹¬ c = '\n'› (List.mem_singleton.mp hc).symm

theorem escape_eq {name : List Char} (h : '\n' ∉ name) : escape name = name := by
  induction name with
  | nil => rfl
  | cons c cs ih =>
    obtain ⟨hc, hcs⟩ := not_or.mp (mt List.mem_cons.mpr h)
    have hcons : escape (c :: cs) = (if c = '\n' then ['\\', '0', '1', '2'] else [c]) ++ escape cs := by
      simp [escape]
    rw [hcons, if_neg (Ne.symm hc), ih hcs]
    rfl

theorem not_mem_text (e : Entry) : '\n' ∉ e.text := by
  have hheader := not_mem_header e (show Foreign '\n' by decide)
  unfold Entry.text
  split
  · exact hheader
  · simp [hheader, not_mem_escape, List.mem_replicate]

/-- What begins with a foreign character is in the text of a line if it is in the name. -/
theorem infix_text_iff {c : Char} (hc : Foreign c) (s : List Char) (e : Entry) :
    c :: s <:+: e.text ↔ ∃ name, e.name = some name ∧ c :: s <:+: escape name := by
  have hheader := not_mem_header e hc
  have hspace : c ≠ ' ' := fun h => hc.2 (by simp [h])
  unfold Entry.text
  rcases e.name with _ | name
  · refine iff_of_false (fun hin => hheader (hin.subset List.mem_cons_self)) ?_
    simp
  · have hfront : c ∉ e.header ++ List.replicate (72 - e.header.length) ' ' ++ [' '] := by
      simp [hheader, hspace, List.mem_replicate]
    have hsplit : ∀ front name : List Char, front ++ ' ' :: name = (front ++ [' ']) ++ name := by simp
    dsimp only
    rw [hsplit, cons_infix_append hfront]
    simp

/-- The addresses are the first word of the line. -/
theorem text_eq (e : Entry) : ∃ rest,
    e.text = (hexPad 8 e.start.toNat ++ '-' :: hexPad 8 e.stop.toNat) ++ ' ' :: rest := by
  unfold Entry.text
  rcases e.name with _ | name
  · exact ⟨e.rest, by simp [Entry.header]⟩
  · exact ⟨e.rest ++ List.replicate (72 - e.header.length) ' ' ++ ' ' :: escape name, by simp [Entry.header]⟩

theorem scanLine_text (shmPath : List Char) (e : Entry) (result : List UInt64) :
    scanLine shmPath e.text result = some (result ++ if shmPath <:+: e.text then e.range else []) := by
  by_cases hin : shmPath <:+: e.text
  swap
  · rw [scanLine, if_neg hin, if_neg hin, List.append_nil]
  obtain ⟨rest, htext⟩ := text_eq e
  have hword : ∀ c ∈ hexPad 8 e.start.toNat ++ '-' :: hexPad 8 e.stop.toNat, isSpace c = false := by
    intro c hc
    simp only [List.mem_append, List.mem_cons] at hc
    rcases hc with hc | rfl | hc
    · exact isSpace_of_isSome (isSome_of_mem_hexPad hc)
    · decide
    · exact isSpace_of_isSome (isSome_of_mem_hexPad hc)
  have hdash : ∀ c ∈ hexPad 8 e.start.toNat, decide (c ≠ '-') = true := fun c hc =>
    decide_eq_true (ne_of_isSome (isSome_of_mem_hexPad hc) (by decide))
  have hrange : (e.text.dropWhile isSpace).takeWhile (!isSpace ·) =
      hexPad 8 e.start.toNat ++ '-' :: hexPad 8 e.stop.toNat := by
    rw [htext, dropWhile_append_none (by simp) hword]
    exact takeWhile_append_stop (by simpa using hword) (by decide) rest
  rw [scanLine, if_pos hin, if_pos hin]
  simp only [hrange]
  rw [if_pos (by simp), takeWhile_append_stop hdash (by decide), dropWhile_append_stop hdash (by decide),
    List.tail_cons, stoul_hexPad, stoul_hexPad]
  rfl

/-! ## The file -/

/-- The addresses of the lines that are found. -/
theorem getShmVmAddr_text (f : MapsFile) (shmPath : List Char) : getShmVmAddr (some f.text) shmPath =
    some ((f.entries.filter (·.has shmPath)).flatMap Entry.range) := by
  have hlines : getlines f.text = f.entries.map Entry.text := getlines_unlines (by
    simpa using fun e _ => not_mem_text e)
  have hfold : ∀ (entries : List Entry) (result : List UInt64),
      (entries.map Entry.text).foldlM (fun result line => scanLine shmPath line result) result =
        some (result ++ (entries.filter (·.has shmPath)).flatMap Entry.range) := by
    intro entries
    induction entries with
    | nil => simp
    | cons e entries ih =>
      intro result
      rw [List.map_cons, List.foldlM_cons, scanLine_text, Option.bind_eq_bind, Option.bind_some, ih]
      by_cases h : shmPath <:+: e.text <;> simp [Entry.has, h]
  rw [getShmVmAddr, hlines, hfold, List.nil_append]

theorem starts_of_ranges {xs ys : List Entry} (h : xs.flatMap Entry.range = ys.flatMap Entry.range) :
    xs.map Entry.start = ys.map Entry.start := by
  induction xs generalizing ys with
  | nil =>
    rcases ys with _ | ⟨y, ys⟩
    · rfl
    · simp [Entry.range] at h
  | cons x xs ih =>
    rcases ys with _ | ⟨y, ys⟩
    · simp [Entry.range] at h
    · simp only [List.flatMap_cons, Entry.range, List.cons_append, List.nil_append, List.cons.injEq] at h
      rw [List.map_cons, List.map_cons, h.1, ih h.2.2]

/-- No two mappings begin at one address. -/
theorem MapsFile.start_inj (f : MapsFile) {d e : Entry} (hd : d ∈ f.entries) (he : e ∈ f.entries)
    (h : d.start = e.start) : d = e := by
  have hnodup : (f.entries.map Entry.start).Nodup := by
    refine List.pairwise_map.mpr (f.sorted.imp fun {a b} hab => ?_)
    have ha := a.nonempty
    rw [UInt64.lt_iff_toNat_lt] at ha
    rw [UInt64.le_iff_toNat_le] at hab
    intro heq
    rw [heq] at ha
    omega
  exact List.inj_on_of_nodup_map hnodup hd he h

/-- Of one file the same addresses are those of the same lines. -/
theorem MapsFile.ranges_eq_iff (f : MapsFile) (p q : Entry → Bool) :
    (f.entries.filter p).flatMap Entry.range = (f.entries.filter q).flatMap Entry.range ↔
      ∀ e ∈ f.entries, p e = q e := by
  constructor
  · intro h
    have hsub : ∀ p q : Entry → Bool,
        (f.entries.filter p).map Entry.start = (f.entries.filter q).map Entry.start →
          ∀ e ∈ f.entries, p e = true → q e = true := by
      intro p q heq e he hp
      have hmem : e.start ∈ (f.entries.filter p).map Entry.start :=
        List.mem_map_of_mem (List.mem_filter.mpr ⟨he, hp⟩)
      obtain ⟨d, hd, hstart⟩ := List.mem_map.mp (heq ▸ hmem)
      obtain ⟨hd, hq⟩ := List.mem_filter.mp hd
      exact f.start_inj hd he hstart ▸ hq
    have hstarts := starts_of_ranges h
    intro e he
    exact Bool.eq_iff_iff.mpr ⟨hsub p q hstarts e he, hsub q p hstarts.symm e he⟩
  · intro h
    rw [List.filter_congr h]

/-- The end of a path that `getShmPath` keeps. -/
theorem getShmPath_suffix (target : List Char) : getShmPath (some target) <:+ target := by
  rw [getShmPath]
  split
  · exact List.drop_suffix _ _
  · exact List.suffix_refl _

theorem newline_mem_getShmPath {target : List Char} (h : '\n' ∈ target) : '\n' ∈ getShmPath (some target) := by
  rw [getShmPath]
  split
  · rename_i hpre
    obtain ⟨rest, rfl⟩ := List.isPrefixOf_iff_prefix.mp hpre
    rw [List.drop_left]
    exact (List.mem_append.mp h).resolve_left (by decide)
  · exact h

/-- An own line is found if its path is written as it is. -/
theorem own_infix_iff {target : List Char} {e : Entry} (h : e.name = some target) :
    getShmPath (some target) <:+: e.text ↔ '\n' ∉ target := by
  constructor
  · intro hin hnewline
    exact not_mem_text e (hin.subset (newline_mem_getShmPath hnewline))
  · intro hnewline
    have htext : target <:+ e.text := by
      rw [Entry.text, h]
      dsimp only
      rw [escape_eq hnewline]
      exact (List.suffix_cons _ _).trans (List.suffix_append _ _)
    exact ((getShmPath_suffix target).trans htext).isInfix

theorem isOf_iff {target : Option (List Char)} {e : Entry} :
    e.isOf target = true ↔ ∃ name ∈ target, e.name = some name := by
  simp [Entry.isOf, Option.any_eq_true]

/-- The addresses are those of the object if and only if its path is found in its own lines
    and in no others. -/
theorem ranges_iff (target : Option (List Char)) (f : MapsFile) :
    getShmVmAddr (some f.text) (getShmPath target) = some (f.ranges target) ↔ Exact target f := by
  rw [getShmVmAddr_text, Option.some.injEq, MapsFile.ranges, f.ranges_eq_iff]
  constructor
  · intro h
    refine ⟨fun e he hother => ?_, fun e he name hname hown => ?_⟩
    · simpa [Entry.has, hother] using h e he
    · have hisOf : e.isOf target = true := isOf_iff.mpr ⟨name, hname, hown⟩
      have hhas := (h e he).trans hisOf
      cases hname
      exact (own_infix_iff hown).mp (of_decide_eq_true hhas)
  · intro h e he
    rcases hisOf : e.isOf target with _ | _
    · simpa [Entry.has] using h.other e he hisOf
    · obtain ⟨name, hname, hown⟩ := isOf_iff.mp hisOf
      simpa [Entry.has, Option.mem_def.mp hname] using (own_infix_iff hown).mpr (h.own e he name hname hown)

/-! ## Lines of other files -/

/-- A private mapping of a file that can be read. -/
def mappingOf (name : List Char) : Entry :=
  ⟨0x1000, 0x2000, true, false, false, false, 0, 8, 1, 7, some name, by decide⟩

/-- It is the only mapping of a process. -/
def fileOf (name : List Char) : MapsFile := ⟨[mappingOf name], List.pairwise_singleton _ _⟩

theorem getShmVmAddr_fileOf {c : Char} {s name : List Char} (hc : Foreign c) (h : c :: s <:+: escape name) :
    getShmVmAddr (some (fileOf name).text) (c :: s) = some [0x1000, 0x2000] := by
  have hhas : (mappingOf name).has (c :: s) = true :=
    decide_eq_true ((infix_text_iff hc s (mappingOf name)).mpr ⟨name, rfl, h⟩)
  have hfilter : (fileOf name).entries.filter (·.has (c :: s)) = [mappingOf name] := by simp [fileOf, hhas]
  rw [getShmVmAddr_text, hfilter]
  rfl

/-- The object `/dev/shm/a`, in a process that maps `/lib/app.so`. -/
theorem other_file_is_returned :
    let file := fileOf ['/', 'l', 'i', 'b', '/', 'a', 'p', 'p', '.', 's', 'o']
    let target := some ['/', 'd', 'e', 'v', '/', 's', 'h', 'm', '/', 'a']
    getShmVmAddr (some file.text) (getShmPath target) = some [0x1000, 0x2000] ∧ file.ranges target = [] :=
  ⟨getShmVmAddr_fileOf (by decide) (by decide), by decide⟩

/-- No object, in a process that maps `/None`. -/
theorem missing_object_is_returned :
    let file := fileOf ['/', 'N', 'o', 'n', 'e']
    getShmVmAddr (some file.text) (getShmPath none) = some [0x1000, 0x2000] ∧ file.ranges none = [] :=
  ⟨getShmVmAddr_fileOf (by decide) (by decide), rfl⟩

end Ksight.Ipcwatcher.VmAddr

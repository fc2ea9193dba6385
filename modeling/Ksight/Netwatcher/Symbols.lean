/-
  Ksight.Netwatcher.Symbols — the kernel symbol of an address
  (src/net/netwatcher/src/NetWatcherBpf.cpp: `readallsym`, `findfunc`, `print_kfree`;
  src/bpf_common_helper/trace_helpers.c: `ksyms__map_addr`).

  `findfunc` reads /proc/kallsyms at its first call at which the file can be opened, sorts the
  symbols by address, and finds the last one that is not above an address. A line of the file
  is what the kernel writes; a name is cut to 63 characters. `std::sort` may put symbols of
  one address in any order: `sort` is any function that sorts (`Sorts`).

  The law (`Located`): a location is printed as the symbol with the greatest address not above
  it among those of the first file that could be read, and the distance from it; as "unknown"
  and itself if there is no such symbol, or no file yet.

  - `location_located`: the law holds of each of any sequence of locations, however often the
    file can be opened in between and whatever it holds then.
  - `mapAddr_agrees`: `ksyms__map_addr`, which closes in on the last symbol instead, finds a
    symbol for the same addresses, and of the same address.
-/

import Mathlib.Data.List.Induction
import Ksight.Lib.Boundary
import Ksight.Lib.Outputs

namespace Ksight.Netwatcher.Symbols

open Ksight.Lib

/-- A line of /proc/kallsyms. -/
structure Line where
  addr : UInt64
  type : UInt8
  name : List UInt8

structure SymbolEntry where
  addr : UInt64
  name : List UInt8
  deriving DecidableEq

/-- `symbols` and `symbols_loaded`. -/
structure Table where
  symbols : List SymbolEntry
  loaded : Bool

/-- `sscanf` of a line: `%63s` takes 63 characters at most. -/
def Line.entry (line : Line) : SymbolEntry := ⟨line.addr, line.name.take 63⟩

/-- `file` is /proc/kallsyms, `none` where it cannot be opened. -/
def readallsym (sort : List SymbolEntry → List SymbolEntry) (file : Option (List Line)) (t : Table) : Table :=
  if t.loaded then t
  else match file with
    | none => t
    | some lines => ⟨sort (t.symbols ++ lines.map Line.entry), true⟩

/-- The symbol at a position is not above the address. -/
def notAbove (symbols : List SymbolEntry) (addr : UInt64) (i : Nat) : Bool := symbols[i]?.any (·.addr ≤ addr)

/-- {0, "unknown"} -/
def unknown : SymbolEntry := ⟨0, "unknown".toUTF8.toList⟩

def findfunc (sort : List SymbolEntry → List SymbolEntry) (file : Option (List Line)) (addr : UInt64)
    (t : Table) : SymbolEntry × Table :=
  let t := readallsym sort file t
  let it := partitionPoint (notAbove t.symbols addr) 0 t.symbols.length
  (if it = 0 then unknown else (t.symbols[it - 1]?).getD unknown, t)

/-- A location as `print_kfree` prints it: the name and the distance. -/
structure Loc where
  name : List UInt8
  offset : UInt64
  deriving DecidableEq

def locOf (sym : SymbolEntry) (location : UInt64) : Loc := ⟨sym.name, location - sym.addr⟩

/-- `ksyms__map_addr` in a sorted table. -/
def ksymsMapAddr (symbols : List SymbolEntry) (addr : UInt64) : Option SymbolEntry :=
  (lastHolding (notAbove symbols addr) symbols.length).bind fun i => symbols[i]?

/-! ## The law -/

/-- What is relied on of `std::sort`. -/
def Sorts (sort : List SymbolEntry → List SymbolEntry) : Prop :=
  ∀ l, (sort l).Perm l ∧ (sort l).Pairwise fun e f => e.addr ≤ f.addr

/-- A location to be printed, and the file as it is then. -/
structure Call where
  file : Option (List Line)
  location : UInt64

/-- The first file that could be read. -/
def firstRead (calls : List Call) : Option (List Line) := calls.findSome? (·.file)

/-- The greatest of the symbols that are not above the address. -/
def IsFloor (symbols : List SymbolEntry) (addr : UInt64) (e : SymbolEntry) : Prop :=
  e ∈ symbols ∧ e.addr ≤ addr ∧ ∀ f ∈ symbols, f.addr ≤ addr → f.addr ≤ e.addr

/-- The symbols that are known after some calls. -/
def known (calls : List Call) : List SymbolEntry := ((firstRead calls).getD []).map Line.entry

/-- One location. -/
def printLoc (sort : List SymbolEntry → List SymbolEntry) (c : Call) (t : Table) : Loc × Table :=
  let found := findfunc sort c.file c.location t
  (locOf found.1 c.location, found.2)

def printed (sort : List SymbolEntry → List SymbolEntry) (calls : List Call) : List Loc :=
  outputs (printLoc sort) calls ⟨[], false⟩

/-! ## One search -/

variable {symbols : List SymbolEntry} {addr : UInt64}

/-- In a sorted table the symbols that are not above an address come first. -/
theorem boundary_of_sorted (h : symbols.Pairwise fun e f => e.addr ≤ f.addr) (addr : UInt64) :
    IsBoundary (notAbove symbols addr) symbols.length (symbols.countP fun e => e.addr ≤ addr) := by
  induction symbols with
  | nil => exact ⟨Nat.le_refl _, fun i hi => absurd hi (Nat.not_lt_zero i), fun i _ hi => absurd hi (Nat.not_lt_zero i)⟩
  | cons e symbols ih =>
    obtain ⟨he, hrest⟩ := List.pairwise_cons.mp h
    have ih := ih hrest
    by_cases hle : e.addr ≤ addr
    · rw [List.countP_cons_of_pos (by simpa using hle), List.length_cons]
      refine ⟨by have := ih.le; omega, fun i hi => ?_, fun i hi hn => ?_⟩
      · cases i with
        | zero => simpa [notAbove] using hle
        | succ i => simpa [notAbove] using ih.below i (by omega)
      · cases i with
        | zero => omega
        | succ i => simpa [notAbove] using ih.above i (by omega) (by omega)
    · have hall : ∀ f ∈ symbols, ¬ f.addr ≤ addr := fun f hf hfle => hle (UInt64.le_trans (he f hf) hfle)
      have hzero : symbols.countP (fun e => decide (e.addr ≤ addr)) = 0 :=
        List.countP_eq_zero.mpr fun f hf => by simpa using hall f hf
      rw [List.countP_cons_of_neg (by simpa using hle), hzero]
      refine ⟨Nat.zero_le _, fun i hi => absurd hi (Nat.not_lt_zero i), fun i _ hn => ?_⟩
      have hmem := List.getElem_mem hn
      have hnot : ¬ ((e :: symbols)[i]).addr ≤ addr := by
        rcases List.mem_cons.mp hmem with heq | hmem
        · rw [heq]
          exact hle
        · exact hall _ hmem
      rw [notAbove, List.getElem?_eq_getElem hn, Option.any_some]
      exact decide_eq_false hnot

theorem le_of_sorted (h : symbols.Pairwise fun e f => e.addr ≤ f.addr) {i j : Nat} (hij : i ≤ j)
    (hj : j < symbols.length) : symbols[i].addr ≤ symbols[j].addr := by
  rcases Nat.lt_or_eq_of_le hij with hlt | rfl
  · exact List.pairwise_iff_getElem.mp h i j (by omega) hj hlt
  · exact UInt64.le_refl _

/-- The symbol before the boundary is the floor, and without one before it there is none. -/
theorem floor_of_boundary (h : symbols.Pairwise fun e f => e.addr ≤ f.addr) {b : Nat}
    (hb : IsBoundary (notAbove symbols addr) symbols.length b) :
    (b = 0 → ∀ e ∈ symbols, addr < e.addr) ∧ (b ≠ 0 → ∃ e, symbols[b - 1]? = some e ∧ IsFloor symbols addr e) := by
  have hholds : ∀ {i} (hi : i < symbols.length), symbols[i].addr ≤ addr ↔ i < b := fun {i} hi => by
    rw [← hb.holds_iff hi, notAbove, List.getElem?_eq_getElem hi, Option.any_some, decide_eq_true_iff]
  constructor
  · intro hzero e he
    obtain ⟨i, hi, rfl⟩ := List.getElem_of_mem he
    have hnot := mt (hholds hi).mp (by omega)
    exact UInt64.not_le.mp hnot
  · intro hpos
    have hlt : b - 1 < symbols.length := by have := hb.le; omega
    refine ⟨symbols[b - 1], List.getElem?_eq_getElem hlt, List.getElem_mem hlt, (hholds hlt).mpr (by omega), ?_⟩
    intro f hf hle
    obtain ⟨j, hj, rfl⟩ := List.getElem_of_mem hf
    have hjb := (hholds hj).mp hle
    exact le_of_sorted h (by omega) hlt

/-- What a search of a sorted table finds. -/
theorem partitionPoint_floor (h : symbols.Pairwise fun e f => e.addr ≤ f.addr) (addr : UInt64) :
    (partitionPoint (notAbove symbols addr) 0 symbols.length = 0 → ∀ e ∈ symbols, addr < e.addr) ∧
      (partitionPoint (notAbove symbols addr) 0 symbols.length ≠ 0 →
        ∃ e, symbols[partitionPoint (notAbove symbols addr) 0 symbols.length - 1]? = some e ∧
          IsFloor symbols addr e) := by
  have hb := boundary_of_sorted h addr
  rw [partitionPoint_eq hb]
  exact floor_of_boundary h hb

theorem sorts_mergeSort : Sorts fun l => l.mergeSort fun e f => e.addr ≤ f.addr := by
  intro l
  refine ⟨List.mergeSort_perm l _, ?_⟩
  have htrans : ∀ a b c : SymbolEntry, decide (a.addr ≤ b.addr) = true → decide (b.addr ≤ c.addr) = true →
      decide (a.addr ≤ c.addr) = true := fun a b c hab hbc =>
    decide_eq_true (UInt64.le_trans (of_decide_eq_true hab) (of_decide_eq_true hbc))
  have htotal : ∀ a b : SymbolEntry, (decide (a.addr ≤ b.addr) || decide (b.addr ≤ a.addr)) = true := fun a b => by
    simpa using UInt64.le_total a.addr b.addr
  exact (List.pairwise_mergeSort htrans htotal l).imp of_decide_eq_true

/-- A file of two symbols, the greater of them first. -/
def twoLines : List Line := [⟨0x2000, 116, [98]⟩, ⟨0x1000, 116, [97]⟩]

theorem mapAddr_floor (h : symbols.Pairwise fun e f => e.addr ≤ f.addr) (addr : UInt64) :
    (ksymsMapAddr symbols addr = none ∧ ∀ e ∈ symbols, addr < e.addr) ∨
      ∃ e, ksymsMapAddr symbols addr = some e ∧ IsFloor symbols addr e := by
  have hb := boundary_of_sorted h addr
  obtain ⟨hnone, hsome⟩ := floor_of_boundary h hb
  rw [ksymsMapAddr, lastHolding_eq hb]
  split
  · exact .inl ⟨rfl, hnone ‹_›⟩
  · obtain ⟨e, he, hfloor⟩ := hsome ‹_›
    exact .inr ⟨e, he, hfloor⟩

/-- The two searches agree on the address, in tables of the same addresses. -/
theorem mapAddr_agrees {sort : List SymbolEntry → List SymbolEntry} (hsort : Sorts sort) {lines : List Line}
    (h : symbols.Pairwise fun e f => e.addr ≤ f.addr)
    (hsame : (symbols.map (·.addr)).Perm (lines.map (·.addr))) (addr : UInt64) :
    (ksymsMapAddr symbols addr = none → (findfunc sort (some lines) addr ⟨[], false⟩).1 = unknown) ∧
      ∀ e, ksymsMapAddr symbols addr = some e →
        e.addr = (findfunc sort (some lines) addr ⟨[], false⟩).1.addr := by
  have hmem : ∀ x, (∃ e ∈ symbols, e.addr = x) ↔ ∃ f ∈ sort (lines.map Line.entry), f.addr = x := fun x => by
    have hentry : (lines.map Line.entry).map (·.addr) = lines.map (·.addr) := by
      rw [List.map_map]
      rfl
    have hperm : (symbols.map (·.addr)).Perm ((sort (lines.map Line.entry)).map (·.addr)) :=
      hsame.trans (hentry ▸ ((hsort (lines.map Line.entry)).1.map (·.addr)).symm)
    simpa using hperm.mem_iff (a := x)
  obtain ⟨hnone, hsome⟩ := partitionPoint_floor (hsort (lines.map Line.entry)).2 addr
  simp only [findfunc, readallsym, Bool.false_eq_true, if_false, List.nil_append]
  rcases mapAddr_floor h addr with ⟨hn, habove⟩ | ⟨e, he, hfloor⟩
  · refine ⟨fun _ => if_pos ?_, fun e he => (by rw [hn] at he; cases he)⟩
    by_contra hpos
    obtain ⟨f, -, hf⟩ := hsome hpos
    obtain ⟨e, he, heq⟩ := (hmem f.addr).mpr ⟨f, hf.1, rfl⟩
    exact absurd (heq ▸ hf.2.1) (UInt64.not_le.mpr (habove e he))
  · refine ⟨fun hn => (by rw [hn] at he; cases he), fun e' he' => ?_⟩
    obtain rfl : e = e' := Option.some.inj (he.symm.trans he')
    obtain ⟨f, hfmem, hfe⟩ := (hmem e.addr).mp ⟨e, hfloor.1, rfl⟩
    have hpos : partitionPoint (notAbove (sort (lines.map Line.entry)) addr) 0
        (sort (lines.map Line.entry)).length ≠ 0 := fun hzero =>
      absurd (hfe ▸ hfloor.2.1) (UInt64.not_le.mpr (hnone hzero f hfmem))
    obtain ⟨g, hg, hgfloor⟩ := hsome hpos
    rw [if_neg hpos, hg, Option.getD_some]
    obtain ⟨d, hd, hde⟩ := (hmem g.addr).mpr ⟨g, hgfloor.1, rfl⟩
    refine UInt64.le_antisymm ?_ ?_
    · exact hfe ▸ hgfloor.2.2 f hfmem (hfe ▸ hfloor.2.1)
    · exact hde ▸ hfloor.2.2 d hd (hde ▸ hgfloor.2.1)

theorem agree_in_two_lines :
    (ksymsMapAddr [⟨0x1000, []⟩, ⟨0x2000, []⟩] 0x1010 = none → (findfunc
      (fun l => l.mergeSort fun e f => e.addr ≤ f.addr) (some twoLines) 0x1010 ⟨[], false⟩).1 = unknown) ∧
      ∀ e, ksymsMapAddr [⟨0x1000, []⟩, ⟨0x2000, []⟩] 0x1010 = some e → e.addr = (findfunc
        (fun l => l.mergeSort fun e f => e.addr ≤ f.addr) (some twoLines) 0x1010 ⟨[], false⟩).1.addr :=
  have hperm : (([⟨0x1000, []⟩, ⟨0x2000, []⟩] : List SymbolEntry).map (·.addr)).Perm (twoLines.map (·.addr)) :=
    .swap _ _ _
  mapAddr_agrees sorts_mergeSort (by decide) hperm 0x1010

end Ksight.Netwatcher.Symbols

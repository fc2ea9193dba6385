/-
  Ksight.Ipcwatcher.PhysAddr — the physical address of a virtual one
  (src/ipc/ipcwatcher/src/ShmUtils.cpp: `vaddrToPhysicalAddr`).

  The entry of the page is read from /proc/<pid>/pagemap, at its index for the page size of
  the system, and its frame number is shifted by 12, which is the page size 4096 alone.

  The law (`ExactAt`): on a present page the result is the address of the frame and the
  offset in it, and 0 elsewhere; so two addresses have one result if and only if they are
  the same place of one frame (`SamePlace`). `same_place_iff`: it holds of two addresses if
  and only if the page size is 4096 or the frames of both are frame 0 (`Plain`).
-/

import Mathlib.Data.Nat.Bitwise

namespace Ksight.Ipcwatcher.PhysAddr

/-- What `getpagesize` returns. -/
structure PageSize where
  shift : Nat
  least : 12 ≤ shift
  fits : shift < 64

/-- The entries of /proc/<pid>/pagemap by their index, `none` where it cannot be read. -/
abbrev Pagemap := Nat → Option UInt64

def PageSize.bytes (p : PageSize) : UInt64 := .ofNat (2 ^ p.shift)

/-- A read of one entry, which is refused at an offset inside of one. -/
def Pagemap.pread (m : Pagemap) (offset : UInt64) : Option UInt64 :=
  if offset.toNat % 8 = 0 then m (offset.toNat / 8) else none

/-- The pagemap is `none` where it cannot be opened. -/
def vaddrToPhysicalAddr (p : PageSize) (pagemap : Option Pagemap) (vaddr : UInt64) : UInt64 :=
  match pagemap with
  | none => 0
  | some m =>
    let vpage := vaddr / p.bytes
    let fileOffset := vpage * 8
    let pageOffset := vaddr % p.bytes
    match m.pread fileOffset with
    | none => 0
    | some entry =>
      if entry &&& ((1 : UInt64) <<< 63) = 0 then 0
      else
        let pfn := entry &&& 0x7FFFFFFFFFFFFF
        (pfn <<< 12) ||| pageOffset

/-! ## The law -/

/-- The entry has bit 63 set. -/
def present (entry : UInt64) : Bool := entry.toNat.testBit 63

/-- The low 55 bits. -/
def pfn (entry : UInt64) : Nat := entry.toNat % 2 ^ 55

/-- The entry of the page of an address, if the page is present. -/
def presentEntry (p : PageSize) (pagemap : Option Pagemap) (vaddr : UInt64) : Option UInt64 :=
  (pagemap.bind fun m => m (vaddr.toNat / 2 ^ p.shift)).filter present

def ExactAt (p : PageSize) (pagemap : Option Pagemap) (vaddr : UInt64) : Prop :=
  match presentEntry p pagemap vaddr with
  | some entry =>
    (vaddrToPhysicalAddr p pagemap vaddr).toNat = pfn entry * 2 ^ p.shift + vaddr.toNat % 2 ^ p.shift
  | none => vaddrToPhysicalAddr p pagemap vaddr = 0

/-- Two addresses on present pages have one result if and only if they are the same place. -/
def SamePlace (p : PageSize) (pagemap : Option Pagemap) (vaddr vaddr' : UInt64) : Prop :=
  ∀ entry ∈ presentEntry p pagemap vaddr, ∀ entry' ∈ presentEntry p pagemap vaddr',
    (vaddrToPhysicalAddr p pagemap vaddr = vaddrToPhysicalAddr p pagemap vaddr' ↔
      pfn entry = pfn entry' ∧ vaddr.toNat % 2 ^ p.shift = vaddr'.toNat % 2 ^ p.shift)

/-- The condition: pages of 4096 bytes, or the page is frame 0 or not present. -/
def Plain (p : PageSize) (pagemap : Option Pagemap) (vaddr : UInt64) : Prop :=
  p.shift = 12 ∨ ∀ entry ∈ presentEntry p pagemap vaddr, pfn entry = 0

/-- The frames of the present pages have 64-bit addresses. -/
def Addressable (p : PageSize) (pagemap : Option Pagemap) : Prop :=
  ∀ m ∈ pagemap, ∀ n, ∀ entry ∈ m n, present entry = true → pfn entry * 2 ^ p.shift < 2 ^ 64

/-! ## What is returned -/

theorem toNat_bytes (p : PageSize) : p.bytes.toNat = 2 ^ p.shift := by
  have hlt : 2 ^ p.shift < 2 ^ 64 := Nat.pow_lt_pow_right Nat.one_lt_two p.fits
  rw [PageSize.bytes, UInt64.toNat_ofNat', Nat.mod_eq_of_lt hlt]

theorem and_bit63 (entry : UInt64) : entry &&& ((1 : UInt64) <<< 63) = 0 ↔ present entry = false := by
  rw [← UInt64.toNat_inj, UInt64.toNat_and]
  change entry.toNat &&& 2 ^ 63 = 0 ↔ _
  rw [Nat.and_two_pow, present]
  cases entry.toNat.testBit 63 <;> simp

theorem toNat_pfn (entry : UInt64) : (entry &&& 0x7FFFFFFFFFFFFF).toNat = pfn entry := by
  rw [UInt64.toNat_and]
  exact Nat.and_two_pow_sub_one_eq_mod entry.toNat 55

/-- The entry is read at the index of the page. -/
theorem pread_page (p : PageSize) (m : Pagemap) (vaddr : UInt64) :
    m.pread (vaddr / p.bytes * 8) = m (vaddr.toNat / 2 ^ p.shift) := by
  have hpage : vaddr.toNat / 2 ^ p.shift ≤ vaddr.toNat / 2 ^ 12 :=
    Nat.div_le_div_left (Nat.pow_le_pow_right Nat.two_pos p.least) (Nat.two_pow_pos 12)
  have hoffset : (vaddr / p.bytes * 8).toNat = vaddr.toNat / 2 ^ p.shift * 8 := by
    have := vaddr.toNat_lt
    rw [UInt64.toNat_mul, UInt64.toNat_div, toNat_bytes]
    change vaddr.toNat / 2 ^ p.shift * 8 % 2 ^ 64 = _
    omega
  rw [Pagemap.pread, hoffset, if_pos (Nat.mul_mod_left _ 8), Nat.mul_div_cancel _ (by decide)]

/-- The result is the shifted frame number, or'ed with the offset, or 0. -/
theorem toNat_vaddrToPhysicalAddr (p : PageSize) (pagemap : Option Pagemap) (vaddr : UInt64) :
    (vaddrToPhysicalAddr p pagemap vaddr).toNat =
      match presentEntry p pagemap vaddr with
      | some entry => pfn entry * 2 ^ 12 % 2 ^ 64 ||| vaddr.toNat % 2 ^ p.shift
      | none => 0 := by
  cases pagemap with
  | none => rfl
  | some m =>
    simp only [vaddrToPhysicalAddr, presentEntry, pread_page, Option.bind_some]
    cases he : m (vaddr.toNat / 2 ^ p.shift) with
    | none => rfl
    | some entry =>
      by_cases hp : present entry = true
      · have hbit : ¬ entry &&& ((1 : UInt64) <<< 63) = 0 := fun h => by
          rw [and_bit63, hp] at h
          cases h
        simp only [Option.filter_some, hp, if_true, if_neg hbit]
        rw [UInt64.toNat_or, UInt64.toNat_shiftLeft, toNat_pfn, UInt64.toNat_mod, toNat_bytes]
        rw [Nat.shiftLeft_eq]
        rfl
      · have hbit : entry &&& ((1 : UInt64) <<< 63) = 0 := (and_bit63 entry).mpr (by simpa using hp)
        simp only [Option.filter_some, hp, if_pos hbit]
        rfl

/-! ## When it is the address -/

/-- On a present page the result is the address if and only if the page size is the one
    shifted by, or the frame number is 0. -/
theorem shifted_eq_iff (p : PageSize) {n off : Nat} (hoff : off < 2 ^ p.shift) (hn : n * 2 ^ p.shift < 2 ^ 64) :
    n * 2 ^ 12 % 2 ^ 64 ||| off = n * 2 ^ p.shift + off ↔ p.shift = 12 ∨ n = 0 := by
  have hle : n * 2 ^ 12 ≤ n * 2 ^ p.shift :=
    Nat.mul_le_mul_left n (Nat.pow_le_pow_right Nat.two_pos p.least)
  rw [Nat.mod_eq_of_lt (hle.trans_lt hn)]
  constructor
  · intro h
    by_cases hs : p.shift = 12
    · exact .inl hs
    · -- above the offset, the left side has the frame number without its last bits
      have hsplit : 2 ^ p.shift = 2 ^ 12 * 2 ^ (p.shift - 12) := by
        rw [← Nat.pow_add, Nat.add_sub_cancel' p.least]
      have hupper : n * 2 ^ 12 / 2 ^ p.shift = n := by
        have hdiv := congrArg (· / 2 ^ p.shift) h
        simp only [Nat.or_div_two_pow, Nat.div_eq_of_lt hoff, Nat.or_zero] at hdiv
        rwa [Nat.mul_comm n (2 ^ p.shift), Nat.mul_add_div (Nat.two_pow_pos _), Nat.div_eq_of_lt hoff,
          Nat.add_zero] at hdiv
      have hless : n / 2 ^ (p.shift - 12) = n := by
        rwa [hsplit, Nat.mul_comm n, Nat.mul_div_mul_left _ _ (Nat.two_pow_pos 12)] at hupper
      have hlt : 1 < 2 ^ (p.shift - 12) := Nat.one_lt_two_pow (by have := p.least; omega)
      refine .inr (Nat.eq_zero_of_not_pos fun hpos => ?_)
      exact absurd hless (Nat.div_lt_self hpos hlt).ne
  · rintro (hs | rfl)
    · rw [hs] at hoff ⊢
      rw [Nat.mul_comm, ← Nat.two_pow_add_eq_or_of_lt hoff]
    · simp

theorem exactAt_iff {p : PageSize} {pagemap : Option Pagemap} (ha : Addressable p pagemap) (vaddr : UInt64) :
    ExactAt p pagemap vaddr ↔ Plain p pagemap vaddr := by
  have hret := toNat_vaddrToPhysicalAddr p pagemap vaddr
  unfold ExactAt Plain
  cases he : presentEntry p pagemap vaddr with
  | none =>
    rw [he] at hret
    exact ⟨fun _ => .inr (by simp), fun _ => UInt64.toNat_inj.mp hret⟩
  | some entry =>
    rw [he] at hret
    obtain ⟨hbind, hpresent⟩ := Option.filter_eq_some_iff.mp he
    obtain ⟨m, hm, hentry⟩ := Option.bind_eq_some_iff.mp hbind
    have hfit : pfn entry * 2 ^ p.shift < 2 ^ 64 := ha m hm _ entry hentry hpresent
    dsimp only at hret ⊢
    rw [hret, shifted_eq_iff p (Nat.mod_lt _ (Nat.two_pow_pos _)) hfit]
    simp

/-- Frames and offsets are determined by the address. -/
theorem place_inj {P n n' off off' : Nat} (h : off < P) (h' : off' < P) :
    n * P + off = n' * P + off' ↔ n = n' ∧ off = off' := by
  constructor
  · intro he
    have hP : 0 < P := Nat.zero_lt_of_lt h
    have hn : n = n' := by
      have hdiv := congrArg (· / P) he
      simp only [Nat.mul_comm _ P, Nat.mul_add_div hP, Nat.div_eq_of_lt h, Nat.div_eq_of_lt h', Nat.add_zero] at hdiv
      exact hdiv
    subst hn
    exact ⟨rfl, Nat.add_left_cancel he⟩
  · rintro ⟨rfl, rfl⟩
    rfl

theorem samePlace_of_exact {p : PageSize} {pagemap : Option Pagemap} {vaddr vaddr' : UInt64}
    (h : ExactAt p pagemap vaddr) (h' : ExactAt p pagemap vaddr') : SamePlace p pagemap vaddr vaddr' := by
  intro entry he entry' he'
  unfold ExactAt at h h'
  rw [Option.mem_def.mp he] at h
  rw [Option.mem_def.mp he'] at h'
  dsimp only at h h'
  rw [← UInt64.toNat_inj, h, h']
  exact place_inj (Nat.mod_lt _ (Nat.two_pow_pos _)) (Nat.mod_lt _ (Nat.two_pow_pos _))

/-- For every page size, content of the pagemap and two addresses. -/
theorem same_place_iff {p : PageSize} {pagemap : Option Pagemap} (ha : Addressable p pagemap)
    (vaddr vaddr' : UInt64) :
    ExactAt p pagemap vaddr ∧ ExactAt p pagemap vaddr' ∧ SamePlace p pagemap vaddr vaddr' ↔
      Plain p pagemap vaddr ∧ Plain p pagemap vaddr' := by
  rw [← exactAt_iff ha, ← exactAt_iff ha]
  constructor
  · rintro ⟨h, h', -⟩
    exact ⟨h, h'⟩
  · rintro ⟨h, h'⟩
    exact ⟨h, h', samePlace_of_exact h h'⟩

/-! ## Two page sizes -/

def page4K : PageSize := ⟨12, by decide, by decide⟩

def page16K : PageSize := ⟨14, by decide, by decide⟩

/-- Page 0 is frame 5, page 1 is frame 6, and page 2 is not present. -/
def twoPages : Pagemap := fun n =>
  if n = 0 then some (0x8000000000000000 + 5) else if n = 1 then some (0x8000000000000000 + 6)
  else if n = 2 then some 0x407fffffffffffff else none

theorem twoPages_addressable (p : PageSize) (h : p.shift ≤ 14) : Addressable p (some twoPages) := by
  intro m hm n entry he hpresent
  cases hm
  have hpfn : pfn entry ≤ 6 := by
    unfold twoPages at he
    split at he
    · cases he
      decide
    · split at he
      · cases he
        decide
      · split at he
        · cases he
          exact absurd hpresent (by decide)
        · cases he
  calc pfn entry * 2 ^ p.shift ≤ 6 * 2 ^ 14 := Nat.mul_le_mul hpfn (Nat.pow_le_pow_right Nat.two_pos h)
    _ < 2 ^ 64 := by decide

theorem small_pages_are_exact :
    vaddrToPhysicalAddr page4K (some twoPages) 0x123 = 0x5123 ∧ ExactAt page4K (some twoPages) 0x123 :=
  ⟨by decide +kernel,
    ((same_place_iff (twoPages_addressable page4K (by decide)) 0x123 0x1123).mpr ⟨.inl rfl, .inl rfl⟩).1⟩

/-- With pages of 16 KiB frame 5 is at 0x14000. -/
theorem large_page_is_misplaced :
    Addressable page16K (some twoPages) ∧ ¬ ExactAt page16K (some twoPages) 0x123 := by
  refine ⟨twoPages_addressable page16K (by decide), fun h => ?_⟩
  have hret : (vaddrToPhysicalAddr page16K (some twoPages) 0x123).toNat = 0x5123 := by decide +kernel
  have he : presentEntry page16K (some twoPages) 0x123 = some (0x8000000000000000 + 5) := by decide +kernel
  unfold ExactAt at h
  rw [he] at h
  dsimp only at h
  rw [hret] at h
  exact absurd h (by decide)

end Ksight.Ipcwatcher.PhysAddr

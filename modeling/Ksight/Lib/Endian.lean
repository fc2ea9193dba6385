/-
  Ksight.Lib.Endian — integers read from bytes on a little-endian machine.

  `le16` and `le32` are the loads, `bswap16` and `bswap32` the conversions between network
  and host order, which are the same function in both directions. A swap undoes itself
  (`bswap32_bswap32`), so it is injective, and swapping a load reads the bytes the other
  way round (`bswap32_le32`). A number is determined by its bytes (`bytes32_injective`).
-/

import Mathlib.Data.UInt

namespace Ksight.Lib

def le16 (b0 b1 : UInt8) : UInt16 := .ofNat (b0.toNat + b1.toNat * 256)

def le32 (b0 b1 b2 b3 : UInt8) : UInt32 :=
  .ofNat (b0.toNat + b1.toNat * 256 + b2.toNat * 65536 + b3.toNat * 16777216)

def bswap16 (x : UInt16) : UInt16 := .ofNat (x.toNat % 256 * 256 + x.toNat / 256)

def bswap32 (x : UInt32) : UInt32 :=
  .ofNat (x.toNat % 256 * 16777216 + x.toNat / 256 % 256 * 65536 + x.toNat / 65536 % 256 * 256 +
    x.toNat / 16777216)

theorem toNat_le16 (b0 b1 : UInt8) : (le16 b0 b1).toNat = b0.toNat + b1.toNat * 256 := by
  have := b0.toNat_lt
  have := b1.toNat_lt
  exact UInt16.toNat_ofNat_of_lt' (by show _ < 2 ^ 16; omega)

theorem toNat_le32 (b0 b1 b2 b3 : UInt8) :
    (le32 b0 b1 b2 b3).toNat = b0.toNat + b1.toNat * 256 + b2.toNat * 65536 + b3.toNat * 16777216 := by
  have := b0.toNat_lt
  have := b1.toNat_lt
  have := b2.toNat_lt
  have := b3.toNat_lt
  exact UInt32.toNat_ofNat_of_lt' (by show _ < 2 ^ 32; omega)

theorem le16_inj {a0 a1 b0 b1 : UInt8} : le16 a0 a1 = le16 b0 b1 ↔ a0 = b0 ∧ a1 = b1 := by
  rw [← UInt16.toNat_inj, toNat_le16, toNat_le16, ← UInt8.toNat_inj, ← UInt8.toNat_inj]
  have := a0.toNat_lt
  have := b0.toNat_lt
  omega

theorem le32_inj {a0 a1 a2 a3 b0 b1 b2 b3 : UInt8} :
    le32 a0 a1 a2 a3 = le32 b0 b1 b2 b3 ↔ a0 = b0 ∧ a1 = b1 ∧ a2 = b2 ∧ a3 = b3 := by
  rw [← UInt32.toNat_inj, toNat_le32, toNat_le32, ← UInt8.toNat_inj, ← UInt8.toNat_inj, ← UInt8.toNat_inj,
    ← UInt8.toNat_inj]
  have := a0.toNat_lt
  have := a1.toNat_lt
  have := a2.toNat_lt
  have := b0.toNat_lt
  have := b1.toNat_lt
  have := b2.toNat_lt
  omega

theorem toNat_bswap16 (x : UInt16) : (bswap16 x).toNat = x.toNat % 256 * 256 + x.toNat / 256 := by
  have := x.toNat_lt
  exact UInt16.toNat_ofNat_of_lt' (by show _ < 2 ^ 16; omega)

theorem toNat_bswap32 (x : UInt32) :
    (bswap32 x).toNat = x.toNat % 256 * 16777216 + x.toNat / 256 % 256 * 65536 +
      x.toNat / 65536 % 256 * 256 + x.toNat / 16777216 := by
  have := x.toNat_lt
  exact UInt32.toNat_ofNat_of_lt' (by show _ < 2 ^ 32; omega)

@[simp] theorem bswap16_bswap16 (x : UInt16) : bswap16 (bswap16 x) = x := by
  apply UInt16.toNat_inj.mp
  have := x.toNat_lt
  rw [toNat_bswap16, toNat_bswap16]
  omega

theorem bswap16_inj {x y : UInt16} : bswap16 x = bswap16 y ↔ x = y :=
  ⟨fun h => by rw [← bswap16_bswap16 x, h, bswap16_bswap16], congrArg bswap16⟩

/-- The four digits of a number to the base 256. -/
theorem digits_of {a b c d : Nat} (ha : a < 256) (hb : b < 256) (hc : c < 256) :
    (a + b * 256 + c * 65536 + d * 16777216) % 256 = a ∧
      (a + b * 256 + c * 65536 + d * 16777216) / 256 % 256 = b ∧
      (a + b * 256 + c * 65536 + d * 16777216) / 65536 % 256 = c ∧
      (a + b * 256 + c * 65536 + d * 16777216) / 16777216 = d := by
  refine ⟨?_, ?_, ?_, ?_⟩ <;> omega

@[simp] theorem bswap32_bswap32 (x : UInt32) : bswap32 (bswap32 x) = x := by
  apply UInt32.toNat_inj.mp
  have hx := x.toNat_lt
  have hs : (bswap32 x).toNat = x.toNat / 16777216 + x.toNat / 65536 % 256 * 256 +
      x.toNat / 256 % 256 * 65536 + x.toNat % 256 * 16777216 := by
    rw [toNat_bswap32]; omega
  obtain ⟨h0, h1, h2, h3⟩ := digits_of (a := x.toNat / 16777216) (b := x.toNat / 65536 % 256)
    (c := x.toNat / 256 % 256) (d := x.toNat % 256) (by omega) (by omega) (by omega)
  rw [toNat_bswap32, hs, h0, h1, h2, h3]
  clear h0 h1 h2 h3 hs
  omega

theorem bswap32_inj {x y : UInt32} : bswap32 x = bswap32 y ↔ x = y :=
  ⟨fun h => by rw [← bswap32_bswap32 x, h, bswap32_bswap32], congrArg bswap32⟩

theorem bswap16_le16 (b0 b1 : UInt8) : bswap16 (le16 b0 b1) = le16 b1 b0 := by
  apply UInt16.toNat_inj.mp
  have := b0.toNat_lt
  have := b1.toNat_lt
  rw [toNat_bswap16, toNat_le16, toNat_le16]
  omega

theorem bswap32_le32 (b0 b1 b2 b3 : UInt8) : bswap32 (le32 b0 b1 b2 b3) = le32 b3 b2 b1 b0 := by
  apply UInt32.toNat_inj.mp
  have := b0.toNat_lt
  have := b1.toNat_lt
  have := b2.toNat_lt
  have := b3.toNat_lt
  rw [toNat_bswap32, toNat_le32, toNat_le32]
  omega

/-- The bytes of a number in network order. -/
def be16 (x : UInt16) : UInt8 × UInt8 := (.ofNat (x.toNat / 256), .ofNat (x.toNat % 256))

def be32 (x : UInt32) : UInt8 × UInt8 × UInt8 × UInt8 :=
  (.ofNat (x.toNat / 16777216), .ofNat (x.toNat / 65536 % 256), .ofNat (x.toNat / 256 % 256),
    .ofNat (x.toNat % 256))

/-- A number sent in network order is the swapped load of its bytes. -/
theorem bswap16_le16_be16 (x : UInt16) : bswap16 (le16 (be16 x).1 (be16 x).2) = x := by
  apply UInt16.toNat_inj.mp
  have := x.toNat_lt
  rw [bswap16_le16, toNat_le16, be16, UInt8.toNat_ofNat_of_lt' (by show _ < 2 ^ 8; omega),
    UInt8.toNat_ofNat_of_lt' (by show _ < 2 ^ 8; omega)]
  omega

theorem bswap32_le32_be32 (x : UInt32) :
    bswap32 (le32 (be32 x).1 (be32 x).2.1 (be32 x).2.2.1 (be32 x).2.2.2) = x := by
  apply UInt32.toNat_inj.mp
  have := x.toNat_lt
  rw [bswap32_le32, toNat_le32, be32, UInt8.toNat_ofNat_of_lt' (by show _ < 2 ^ 8; omega),
    UInt8.toNat_ofNat_of_lt' (by show _ < 2 ^ 8; omega), UInt8.toNat_ofNat_of_lt' (by show _ < 2 ^ 8; omega),
    UInt8.toNat_ofNat_of_lt' (by show _ < 2 ^ 8; omega)]
  omega

/-! ## Stores -/

/-- The bytes of a number in memory. -/
def bytes16 (x : UInt16) : List UInt8 := [(be16 x).2, (be16 x).1]

def bytes32 (x : UInt32) : List UInt8 := [(be32 x).2.2.2, (be32 x).2.2.1, (be32 x).2.1, (be32 x).1]

@[simp] theorem length_bytes16 (x : UInt16) : (bytes16 x).length = 2 := rfl

@[simp] theorem length_bytes32 (x : UInt32) : (bytes32 x).length = 4 := rfl

/-- The bytes of a load. -/
theorem bytes32_le32 (b0 b1 b2 b3 : UInt8) : bytes32 (le32 b0 b1 b2 b3) = [b0, b1, b2, b3] := by
  obtain ⟨h0, h1, h2, h3⟩ := digits_of (d := b3.toNat) b0.toNat_lt b1.toNat_lt b2.toNat_lt
  simp only [bytes32, be32, toNat_le32, h0, h1, h2, h3, UInt8.ofNat_toNat]

theorem bytes16_injective : Function.Injective bytes16 := by
  intro x y h
  simp only [bytes16, List.cons.injEq, and_true] at h
  rw [← bswap16_le16_be16 x, ← bswap16_le16_be16 y, h.1, h.2]

theorem bytes32_injective : Function.Injective bytes32 := by
  intro x y h
  simp only [bytes32, List.cons.injEq, and_true] at h
  obtain ⟨h0, h1, h2, h3⟩ := h
  rw [← bswap32_le32_be32 x, ← bswap32_le32_be32 y, h0, h1, h2, h3]

end Ksight.Lib

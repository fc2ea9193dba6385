/-
  Ksight.Lib.CInt — conversions between a C `int` and an `unsigned long` of 64 bits.

  An `int` is extended with its sign; an `unsigned long` keeps its low 32 bits. `toInt_add`: a
  sum in an `int` to which an `unsigned long` is added is the sum modulo 2^32.
-/

import Mathlib.Data.UInt

namespace Ksight.Lib.CInt

def toULong (x : Int32) : UInt64 := x.toInt64.toUInt64

def toInt (x : UInt64) : Int32 := x.toUInt32.toInt32

theorem toULong_ofNat {n : Nat} (h : n < 2 ^ 31) : (toULong (Int32.ofNat n)).toNat = n := by
  have hle : (n : Int) ≤ Int32.maxValue.toInt := by
    change (n : Int) ≤ 2147483647
    omega
  rw [toULong, Int32.toInt64_ofNat' hle, Int64.toUInt64_ofNat', UInt64.toNat_ofNat']
  omega

theorem toInt_eq (d : UInt64) : toInt d = Int32.ofNat d.toNat := by
  rw [← Int32.toBitVec_inj, ← BitVec.toNat_inj]
  simp [toInt]

theorem toInt_toULong (x : Int32) : toInt (toULong x) = x := by
  rw [← Int32.toBitVec_inj]
  ext i hi
  have hlt : i < 64 := by omega
  simp [toInt, toULong, hlt, BitVec.getElem_signExtend, hi]

theorem toInt_add (n : Nat) (d : UInt64) : toInt (toULong (Int32.ofNat n) + d) = Int32.ofNat (n + d.toNat) := by
  have hadd : ∀ x y : UInt64, toInt (x + y) = toInt x + toInt y := by
    intro x y
    rw [← Int32.toBitVec_inj]
    exact BitVec.setWidth_add x.toBitVec y.toBitVec (by decide)
  rw [hadd, toInt_toULong, toInt_eq, Int32.ofNat_add]

end Ksight.Lib.CInt

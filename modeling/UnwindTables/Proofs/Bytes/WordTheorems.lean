/-
UnwindTables.Proofs.Bytes.WordTheorems — 64-bit values as numbers, with and without a sign.

The readers and writers move between `UInt64`, `Int64`, `Nat` and `Int`. Each lemma here states one
of these moves as arithmetic modulo `2 ^ 64`, so that what is left of a round trip is a linear goal.
-/
import UnwindTables.Bytes.Order
import Mathlib.Algebra.Group.Int.Defs
import Mathlib.Algebra.Group.Nat.Defs

namespace UnwindTables

/-! ## 1. Integers as words -/

theorem Word.toNat_ofInt (n : Int) : (UInt64.ofInt n).toNat = (n % 2 ^ 64).toNat := by
  rw [UInt64.ofInt, UInt64.toNat_ofNat']
  omega

theorem Word.toInt64_ofInt (n : Int) : (UInt64.ofInt n).toInt64 = Int64.ofInt n := by
  apply Int64.toBitVec_inj.mp
  apply BitVec.eq_of_toNat_eq
  show (UInt64.ofInt n).toNat = (BitVec.ofInt 64 n).toNat
  rw [Word.toNat_ofInt, BitVec.toNat_ofInt]
  rfl

theorem Word.ofInt_toInt (value : Int64) : UInt64.ofInt value.toInt = value.toUInt64 := by
  have h := Word.toInt64_ofInt value.toInt
  rw [Int64.ofInt_toInt] at h
  calc UInt64.ofInt value.toInt
      = (UInt64.ofInt value.toInt).toInt64.toUInt64 := (UInt64.toUInt64_toInt64 _).symm
    _ = value.toUInt64 := by rw [h]

/-- The signed value of a word. -/
theorem Word.toInt_toInt64 (value : UInt64) :
    value.toInt64.toInt = (value.toNat : Int).bmod (2 ^ 64) := by
  show value.toInt64.toBitVec.toInt = _
  rw [BitVec.toInt_eq_toNat_bmod]
  rfl

/-- The word of a signed value. -/
theorem Word.toNat_toUInt64 (value : Int64) :
    (value.toUInt64.toNat : Int) = value.toInt % 2 ^ 64 := by
  have h := Word.toInt_toInt64 value.toUInt64
  rw [Int64.toInt64_toUInt64] at h
  have bound := value.toUInt64.toNat_lt
  rw [h, Int.bmod_def]
  omega

/-- The signed value of the lower half of a word. -/
theorem Word.toInt_lowerHalf (value : UInt64) :
    value.toUInt32.toInt32.toInt64.toInt = (value.toNat : Int).bmod (2 ^ 32) := by
  rw [Int32.toInt_toInt64]
  show value.toUInt32.toInt32.toBitVec.toInt = _
  rw [BitVec.toInt_eq_toNat_bmod]
  show ((value.toUInt32.toNat : Int)).bmod _ = _
  rw [UInt64.toNat_toUInt32, Int.natCast_emod]
  exact Int.emod_bmod _ _

/-! ## 2. Widths -/

theorem capacity_four : capacity 4 = 2 ^ 32 := rfl

theorem capacity_eight : capacity 8 = 2 ^ 64 := rfl

end UnwindTables

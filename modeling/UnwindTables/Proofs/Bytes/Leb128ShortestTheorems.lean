/-
UnwindTables.Proofs.Bytes.Leb128ShortestTheorems — what is written is the shortest encoding of its value.

    readUnsigned bytes = some (value, size) → (writeUnsigned value).length ≤ size

and the same for signed values, so that no string, padded or not, says a value in fewer bytes than the
writer does. `write_shortest` puts this beside the rest of what a caller relies on: the encoding is read
back whatever follows it, and it takes between one and ten bytes.

## How the proof goes

A string of `k + 1` groups has a sum of at most `7 * (k + 1)` bits (`groupSum_lt`, `signedSum_bounds`), and
the writer needs no more than `k + 1` bytes for such a number (`length_ofNat_le_iff`, `length_ofInt_le`).
What the readers return is the sum modulo `2 ^ 64`, which only brings it closer to zero
(`bmod_within_bound`). More than ten groups hold every word, so it does not matter what is read from them.

The writers are defined on numbers. `writeUnsigned_eq` and `writeSigned_eq` say what one step of them is on
words: seven bits are masked out and shifted away, and a signed number ends once what is left repeats the
sign of the last group.
-/
import UnwindTables.Proofs.Bytes.Leb128Theorems

namespace UnwindTables.Leb128

/-! ## 1. What fits some groups -/

/-- A number of `k + 1` groups with a sign has `7 * (k + 1)` bits, one of them the sign. -/
theorem signedSum_bounds (k : Nat) (bytes : List UInt8) :
    -(64 * 128 ^ k : Nat) ≤ signedSum bytes (k + 1) ∧ signedSum bytes (k + 1) < (64 * 128 ^ k : Nat) := by
  induction k generalizing bytes with
  | zero =>
      cases bytes with
      | nil => decide
      | cons b bytes =>
          have low := Int.le_bmod (x := (b.toNat : Int)) (m := 128) (by omega)
          have high := Int.bmod_lt (x := (b.toNat : Int)) (m := 128) (by omega)
          rw [signedSum_one]
          omega
  | succ k ih =>
      cases bytes with
      | nil =>
          have hzero : signedSum [] (k + 1 + 1) = 0 := by simp [signedSum, groupSum]
          rw [hzero]
          constructor
          · omega
          · positivity
      | cons b bytes =>
          have := ih bytes
          rw [signedSum_cons, pow_succ]
          omega

/-- Cutting a number to a word does not take it out of bounds. -/
theorem bmod_within_bound {n : Int} {bound modulus : Nat} (hmodulus : 0 < modulus)
    (low : -(bound : Int) ≤ n) (high : n < bound) :
    -(bound : Int) ≤ n.bmod modulus ∧ n.bmod modulus < bound := by
  have hlow := Int.le_bmod (x := n) hmodulus
  have hhigh := Int.bmod_lt (x := n) hmodulus
  by_cases h : -((modulus : Int) / 2) ≤ n ∧ n < ((modulus : Int) + 1) / 2
  · rw [Int.bmod_eq_of_le h.1 h.2]
    exact ⟨low, high⟩
  · omega

variable {bytes : List UInt8} {size : Nat}

/-- A value fits the groups that it was read from. More than ten of them hold every word. -/
theorem bounds_of_readUnsigned {value : UInt64} (h : readUnsigned bytes = some (value, size)) :
    ∃ k, size = k + 1 ∧ value.toNat < 128 ^ (k + 1) := by
  obtain ⟨index, hindex, rfl⟩ := findIdx?_of_readUnsigned h
  refine ⟨index, rfl, ?_⟩
  by_cases short : index < 10
  · rw [readUnsigned_eq hindex (by omega)] at h
    obtain ⟨rfl, -⟩ := Prod.mk.inj (Option.some.inj h)
    rw [UInt64.toNat_ofNat']
    exact (Nat.mod_le _ _).trans_lt (groupSum_lt bytes (index + 1))
  · calc value.toNat < 2 ^ 64 := value.toNat_lt
      _ ≤ 128 ^ 10 := by norm_num
      _ ≤ 128 ^ (index + 1) := Nat.pow_le_pow_right (by decide) (by omega)

theorem bounds_of_readSigned {value : Int64} (h : readSigned bytes = some (value, size)) :
    ∃ k, size = k + 1 ∧ -(64 * 128 ^ k : Nat) ≤ value.toInt ∧ value.toInt < (64 * 128 ^ k : Nat) := by
  obtain ⟨index, hindex, rfl⟩ := findIdx?_of_readSigned h
  refine ⟨index, rfl, ?_⟩
  by_cases short : index < 10
  · rw [readSigned_eq hindex (by omega)] at h
    obtain ⟨rfl, -⟩ := Prod.mk.inj (Option.some.inj h)
    obtain ⟨low, high⟩ := signedSum_bounds index bytes
    rw [Int64.toInt_ofInt]
    exact bmod_within_bound (by decide) low high
  · have hlow := Int64.le_toInt value
    have hhigh := Int64.toInt_lt value
    have hroom : 2 ^ 63 ≤ 64 * 128 ^ index :=
      calc 2 ^ 63 ≤ 64 * 128 ^ 10 := by norm_num
        _ ≤ 64 * 128 ^ index :=
          Nat.mul_le_mul_left 64 (Nat.pow_le_pow_right (by decide) (by omega))
    omega

/-! ## 2. The shortest encoding -/

/-- No bytes say a value in fewer bytes than the writer. -/
theorem length_writeUnsigned_le_of_read {value : UInt64}
    (h : readUnsigned bytes = some (value, size)) : (writeUnsigned value).length ≤ size := by
  obtain ⟨k, rfl, hlt⟩ := bounds_of_readUnsigned h
  exact (length_ofNat_le_iff k value.toNat).mpr hlt

theorem length_writeSigned_le_of_read {value : Int64}
    (h : readSigned bytes = some (value, size)) : (writeSigned value).length ≤ size := by
  obtain ⟨k, rfl, low, high⟩ := bounds_of_readSigned h
  exact length_ofInt_le k value.toInt low high

example : readSigned [0xff, 0xff, 0x7f] = some (-1, 3) ∧ writeSigned (-1) = [0x7f] := by
  decide +kernel

/-- What a writer has to do for a value that a reader is to find: fit a fixed buffer of ten bytes, be read
back whatever follows, and take no more bytes than anything else that is read as the value. -/
structure IsShortest {α : Type} (read : List UInt8 → Option (α × Nat)) (value : α)
    (encoding : List UInt8) : Prop where
  pos : 1 ≤ encoding.length
  fits : encoding.length ≤ 10
  readBack : ∀ rest, read (encoding ++ rest) = some (value, encoding.length)
  least : ∀ bytes size, read bytes = some (value, size) → encoding.length ≤ size

theorem isShortest_writeUnsigned (value : UInt64) :
    IsShortest readUnsigned value (writeUnsigned value) where
  pos := length_ofNat_pos value.toNat
  fits := length_writeUnsigned_le value
  readBack := readUnsigned_writeUnsigned value
  least := fun _ _ => length_writeUnsigned_le_of_read

theorem isShortest_writeSigned (value : Int64) : IsShortest readSigned value (writeSigned value) where
  pos := length_ofInt_pos value.toInt
  fits := length_writeSigned_le value
  readBack := readSigned_writeSigned value
  least := fun _ _ => length_writeSigned_le_of_read

/-- **What is written is the shortest encoding of its value**, of every unsigned value and of every signed
one. -/
theorem write_shortest :
    (∀ value, IsShortest readUnsigned value (writeUnsigned value)) ∧
      ∀ value, IsShortest readSigned value (writeSigned value) :=
  ⟨isShortest_writeUnsigned, isShortest_writeSigned⟩

/-! ## 3. The writers on words -/

theorem toNat_lowGroup (value : UInt64) : (value &&& 0x7f).toUInt8.toNat = value.toNat % 128 := by
  rw [UInt64.toNat_toUInt8, UInt64.toNat_and]
  have h := Nat.and_two_pow_sub_one_eq_mod value.toNat 7
  rw [show (0x7f : UInt64).toNat = 2 ^ 7 - 1 from rfl, h]
  omega

theorem or_more (b : UInt8) (h : b.toNat < 128) : b ||| 0x80 = UInt8.ofNat (b.toNat + 128) := by
  revert b
  exact forall_byte (by decide +kernel)

theorem toNat_shiftRight_seven (value : UInt64) : (value >>> 7).toNat = value.toNat / 128 := by
  rw [UInt64.toNat_shiftRight]
  exact Nat.shiftRight_eq_div_pow value.toNat 7

/-- One step of writing an unsigned value. -/
theorem writeUnsigned_eq (value : UInt64) :
    writeUnsigned value =
      if value >>> 7 = 0 then [(value &&& 0x7f).toUInt8]
      else ((value &&& 0x7f).toUInt8 ||| 0x80) :: writeUnsigned (value >>> 7) := by
  have hgroup := toNat_lowGroup value
  have hbyte : (value &&& 0x7f).toUInt8 = UInt8.ofNat (value.toNat % 128) := by
    rw [← hgroup, UInt8.ofNat_toNat]
  have hrest : value >>> 7 = 0 ↔ value.toNat < 128 := by
    rw [← UInt64.toNat_inj, toNat_shiftRight_seven]
    show value.toNat / 128 = 0 ↔ _
    omega
  rw [writeUnsigned, ofNat]
  by_cases h : value.toNat < 128
  · rw [if_pos h, if_pos (hrest.mpr h), hbyte, Nat.mod_eq_of_lt h]
  · rw [if_neg h, if_neg (mt hrest.mp h), or_more _ (by omega), hgroup, writeUnsigned, toNat_shiftRight_seven]

theorem toInt_shiftRight_seven (value : Int64) : (value >>> 7).toInt = value.toInt / 128 := by
  show (value >>> 7).toBitVec.toInt = _
  rw [Int64.toBitVec_shiftRight, BitVec.sshiftRight_eq']
  show (value.toBitVec.sshiftRight 7).toInt = _
  rw [BitVec.toInt_sshiftRight, Int.shiftRight_eq_div_pow]
  rfl

theorem toNat_lowGroup_signed (value : Int64) :
    ((value &&& 0x7f).toUInt64.toUInt8.toNat : Int) = value.toInt % 128 := by
  rw [Int64.toUInt64_and]
  show ((value.toUInt64 &&& 0x7f).toUInt8.toNat : Int) = _
  rw [toNat_lowGroup]
  have := Word.toNat_toUInt64 value
  push_cast
  omega

theorem group_sign (b : UInt8) (h : b.toNat < 128) : b &&& 0x40 = 0 ↔ b.toNat < 64 := by
  revert b
  exact forall_byte (by decide +kernel)

/-- One step of writing a signed value. -/
theorem writeSigned_eq (value : Int64) :
    writeSigned value =
      let group := (value &&& 0x7f).toUInt64.toUInt8
      if value >>> 7 = 0 ∧ group &&& 0x40 = 0 ∨ value >>> 7 = -1 ∧ group &&& 0x40 ≠ 0 then [group]
      else (group ||| 0x80) :: writeSigned (value >>> 7) := by
  have hgroup := toNat_lowGroup_signed value
  have hrest := toInt_shiftRight_seven value
  generalize (value &&& 0x7f).toUInt64.toUInt8 = group at hgroup ⊢
  have hseven : group.toNat < 128 := by omega
  have hzero : value >>> 7 = 0 ↔ value.toInt / 128 = 0 := by
    rw [← Int64.toInt_inj, hrest]
    rfl
  have hones : value >>> 7 = -1 ↔ value.toInt / 128 = -1 := by
    rw [← Int64.toInt_inj, hrest]
    rfl
  have hdone : (value >>> 7 = 0 ∧ group &&& 0x40 = 0 ∨ value >>> 7 = -1 ∧ group &&& 0x40 ≠ 0) ↔
      -64 ≤ value.toInt ∧ value.toInt < 64 := by
    rw [hzero, hones, Ne, group_sign group hseven]
    omega
  have hbyte : (value.toInt % 128).toNat = group.toNat := by omega
  rw [writeSigned, ofInt, hbyte]
  simp only [hdone]
  split
  · rw [UInt8.ofNat_toNat]
  · rw [or_more group hseven, writeSigned, hrest]

end UnwindTables.Leb128

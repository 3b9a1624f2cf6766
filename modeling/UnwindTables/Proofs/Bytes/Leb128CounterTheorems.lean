/-
UnwindTables.Proofs.Bytes.Leb128CounterTheorems — what is read from a string of groups, however long it is.

The place of a group is a counter of 32 bits that moves on by seven. After 613 566 757 bytes it starts over,
and a group that stands past the 64th bit is not lost any more: it is joined to the sum a second time, at a
place where other groups have been. `value_of_groups` says what is read from every string: each bit of the
value is set by the groups whose place, modulo `2 ^ 32`, is at most seven bits below it, and up to that length
the value is the sum of the groups. `value_startedOver` is the first string of each kind for which it is not.

## How the proof goes

Bits are joined by `or`, so the bits of a sum are an induction without any bound (`testBit_addUp`). Empty
groups move the counter on and add nothing (`addUp_replicate_append`): the strings of the counterexample are
never written out.
-/
import UnwindTables.Proofs.Bytes.Leb128ValueTheorems

namespace UnwindTables.Leb128

/-! ## 1. The bits of a value -/

/-- The bits of a word that is moved up to a place below the 64th bit. -/
theorem testBit_shiftLeft (word : UInt64) {shift : UInt32} (h : shift.toNat < 64) (j : Nat) :
    (word <<< shift.toUInt64).toNat.testBit j = true ↔
      j < 64 ∧ shift.toNat ≤ j ∧ word.toNat.testBit (j - shift.toNat) = true := by
  rw [UInt64.toNat_shiftLeft, UInt32.toNat_toUInt64, Nat.mod_eq_of_lt h, Nat.testBit_mod_two_pow,
    Nat.testBit_shiftLeft]
  simp only [Bool.and_eq_true, decide_eq_true_eq, ge_iff_le]

/-- A group sets the bits from its place on, if that is not past the word. -/
theorem testBit_addGroup (sum : UInt64) (shift : UInt32) (b : UInt8) (j : Nat) :
    (addGroup sum shift b).toNat.testBit j = true ↔ sum.toNat.testBit j = true ∨
      j < 64 ∧ shift.toNat ≤ j ∧ (b.toNat % 128).testBit (j - shift.toNat) = true := by
  have hgroup : (b &&& 0x7f).toUInt64.toNat = b.toNat % 128 := by
    rw [UInt8.toNat_toUInt64, UInt8.toNat_and]
    exact Nat.and_two_pow_sub_one_eq_mod b.toNat 7
  rw [addGroup]
  split
  · next h =>
      rw [UInt64.toNat_or, Nat.testBit_or, Bool.or_eq_true,
        testBit_shiftLeft _ (UInt32.lt_iff_toNat_lt.mp h), hgroup]
  · next h =>
      have hshift : 64 ≤ shift.toNat := Nat.not_lt.mp fun hlt => h (UInt32.lt_iff_toNat_lt.mpr hlt)
      exact ⟨Or.inl, fun hbit => hbit.resolve_right (by omega)⟩

/-- Adding up sets the bits that one of the groups sets. -/
theorem testBit_addUp {sum : UInt64} {shift : UInt32} {size index : Nat} {bytes : List UInt8}
    {groups : Groups} (h : addUp sum shift size bytes = some groups)
    (hindex : bytes.findIdx? isLast = some index) (j : Nat) :
    groups.sum.toNat.testBit j = true ↔ sum.toNat.testBit j = true ∨
      ∃ i ≤ index, j < 64 ∧ (shift.toNat + 7 * i) % 2 ^ 32 ≤ j ∧
        ((bytes.getD i 0).toNat % 128).testBit (j - (shift.toNat + 7 * i) % 2 ^ 32) = true := by
  induction bytes generalizing sum shift size index with
  | nil => cases h
  | cons b bytes ih =>
      have hfirst : (shift.toNat + 7 * 0) % 2 ^ 32 = shift.toNat := Nat.mod_eq_of_lt shift.toNat_lt
      have hnext (i : Nat) :
          ((shift + 7).toNat + 7 * i) % 2 ^ 32 = (shift.toNat + 7 * (i + 1)) % 2 ^ 32 := by
        rw [UInt32.toNat_add]
        show ((shift.toNat + 7) % 2 ^ 32 + 7 * i) % 2 ^ 32 = _
        omega
      have hstep := testBit_addGroup sum shift b j
      rw [addUp] at h
      rw [List.findIdx?_cons] at hindex
      split at h
      · next hlast =>
          rw [if_pos hlast] at hindex
          obtain rfl := Option.some.inj hindex
          obtain rfl := Option.some.inj h
          simp only [Nat.le_zero, exists_eq_left, hfirst]
          exact hstep
      · next hmore =>
          rw [if_neg hmore] at hindex
          obtain ⟨next, hrest, rfl⟩ := Option.map_eq_some_iff.mp hindex
          simp only [ih h hrest, hnext, hstep, or_assoc]
          refine or_congr_right ⟨?_, ?_⟩
          · rintro (hbit | ⟨i, hi, hbit⟩)
            · exact ⟨0, Nat.zero_le _, by rwa [hfirst]⟩
            · exact ⟨i + 1, Nat.succ_le_succ hi, hbit⟩
          · rintro ⟨i, hi, hbit⟩
            cases i with
            | zero => exact .inl (by rwa [hfirst] at hbit)
            | succ i => exact .inr ⟨i, Nat.le_of_succ_le_succ hi, hbit⟩

/-- The place after the last group, and its byte. -/
theorem end_of_addUp {sum : UInt64} {shift : UInt32} {size index : Nat} {bytes : List UInt8}
    {groups : Groups} (h : addUp sum shift size bytes = some groups)
    (hindex : bytes.findIdx? isLast = some index) :
    groups.shift.toNat = (shift.toNat + 7 * (index + 1)) % 2 ^ 32 ∧
      groups.last = bytes.getD index 0 := by
  induction bytes generalizing sum shift size index with
  | nil => cases h
  | cons b bytes ih =>
      have hshift : (shift + 7).toNat = (shift.toNat + 7) % 2 ^ 32 := UInt32.toNat_add shift 7
      rw [addUp] at h
      rw [List.findIdx?_cons] at hindex
      split at h
      · next hlast =>
          rw [if_pos hlast] at hindex
          obtain rfl := Option.some.inj hindex
          obtain rfl := Option.some.inj h
          exact ⟨hshift, rfl⟩
      · next hmore =>
          rw [if_neg hmore] at hindex
          obtain ⟨next, hrest, rfl⟩ := Option.map_eq_some_iff.mp hindex
          obtain ⟨hplace, hlast⟩ := ih h hrest
          refine ⟨?_, hlast⟩
          rw [hplace, hshift]
          omega

/-- The sign of a number sets every bit from the place after its last group on. -/
theorem testBit_signed (groups : Groups) {j : Nat} (hj : j < 64) :
    groups.signed.toNat.testBit j = true ↔ groups.sum.toNat.testBit j = true ∨
      groups.last &&& 0x40 ≠ 0 ∧ groups.shift.toNat ≤ j := by
  have hones (i : Nat) (hi : i < 64) : ((-1 : UInt64).toNat).testBit i = true := by
    rw [show (-1 : UInt64).toNat = 2 ^ 64 - 1 by decide, Nat.testBit_two_pow_sub_one]
    exact decide_eq_true hi
  rw [Groups.signed]
  split
  · next h =>
      rw [UInt64.toNat_or, Nat.testBit_or, Bool.or_eq_true,
        testBit_shiftLeft _ (UInt32.lt_iff_toNat_lt.mp h.1)]
      exact or_congr_right ⟨fun hbit => ⟨h.2, hbit.2.1⟩,
        fun hbit => ⟨hj, hbit.2, hones _ (by omega)⟩⟩
  · next h =>
      refine ⟨Or.inl, fun hbit => hbit.resolve_right ?_⟩
      rintro ⟨hsign, hplace⟩
      exact h ⟨UInt32.lt_iff_toNat_lt.mpr (hplace.trans_lt hj), hsign⟩

/-- **The bits of any string of groups.** A bit of the unsigned value is set exactly if some group up to the
last one has a bit for it, where the place of a group is counted modulo `2 ^ 32`. The signed value has the
same bits, and if bit 6 of the last byte is set then every bit from the place after it on. -/
theorem bits_of_groups {bytes : List UInt8} {index : Nat}
    (h : bytes.findIdx? (fun b => b &&& 0x80 == 0) = some index) :
    ∃ unsigned signed, readUnsigned bytes = some (unsigned, index + 1) ∧
      readSigned bytes = some (signed, index + 1) ∧ ∀ j < 64,
        (unsigned.toNat.testBit j = true ↔ ∃ i ≤ index, 7 * i % 2 ^ 32 ≤ j ∧
          ((bytes.getD i 0).toNat % 128).testBit (j - 7 * i % 2 ^ 32) = true) ∧
        (signed.toUInt64.toNat.testBit j = true ↔ unsigned.toNat.testBit j = true ∨
          bytes.getD index 0 &&& 0x40 ≠ 0 ∧ 7 * (index + 1) % 2 ^ 32 ≤ j) := by
  have hindex : bytes.findIdx? isLast = some index := h
  have hsize := map_size_addUp 0 0 0 bytes
  rw [hindex, Option.map_some, Nat.zero_add] at hsize
  obtain ⟨groups, hgroups, hsize⟩ := Option.map_eq_some_iff.mp hsize
  obtain ⟨hshift, hlast⟩ := end_of_addUp hgroups hindex
  refine ⟨groups.sum, groups.signed.toInt64, ?_, ?_, ?_⟩
  · rw [readUnsigned, hgroups, Option.map_some, hsize]
  · rw [readSigned, hgroups, Option.map_some, hsize]
  · intro j hj
    have hbits := testBit_addUp hgroups hindex j
    simp only [UInt64.toNat_zero, Nat.zero_testBit, Bool.false_eq_true, false_or, hj, true_and,
      UInt32.toNat_zero, Nat.zero_add] at hbits
    refine ⟨hbits, ?_⟩
    rw [UInt64.toUInt64_toInt64, testBit_signed groups hj, hlast, hshift, UInt32.toNat_zero,
      Nat.zero_add]

/-- **What is read from a string of groups.** There is no number exactly if every byte asks for another one.
Otherwise the number ends with the first byte that does not, and no byte after it makes a difference. The
value is the sum of the groups up to there — modulo `2 ^ 64`, and less `2 ^ (7 * size)` if it is signed and
bit 6 of its last byte is set — as long as the place of the last group, or for a signed number the place
after it, fits the 32 bits of the counter. Its bits are those of `bits_of_groups` in any case. -/
theorem value_of_groups (bytes : List UInt8) :
    (readUnsigned bytes = none ↔ ∀ b ∈ bytes, b &&& 0x80 ≠ 0) ∧
    (readSigned bytes = none ↔ ∀ b ∈ bytes, b &&& 0x80 ≠ 0) ∧
    ∀ index, bytes.findIdx? (fun b => b &&& 0x80 == 0) = some index →
      ∃ unsigned signed, readUnsigned bytes = some (unsigned, index + 1) ∧
        readSigned bytes = some (signed, index + 1) ∧
        (7 * index < 2 ^ 32 → unsigned = UInt64.ofNat (groupSum bytes (index + 1))) ∧
        (7 * (index + 1) < 2 ^ 32 → signed = Int64.ofInt (signedSum bytes (index + 1))) ∧
        (∀ j < 64,
          (unsigned.toNat.testBit j = true ↔ ∃ i ≤ index, 7 * i % 2 ^ 32 ≤ j ∧
            ((bytes.getD i 0).toNat % 128).testBit (j - 7 * i % 2 ^ 32) = true) ∧
          (signed.toUInt64.toNat.testBit j = true ↔ unsigned.toNat.testBit j = true ∨
            bytes.getD index 0 &&& 0x40 ≠ 0 ∧ 7 * (index + 1) % 2 ^ 32 ≤ j)) ∧
        ∀ after, readUnsigned (bytes.take (index + 1) ++ after) = some (unsigned, index + 1) ∧
          readSigned (bytes.take (index + 1) ++ after) = some (signed, index + 1) := by
  refine ⟨?_, ?_, ?_⟩
  · rw [readUnsigned, Option.map_eq_none_iff, addUp_eq_none_iff]
  · rw [readSigned, Option.map_eq_none_iff, addUp_eq_none_iff]
  · intro index h
    obtain ⟨unsigned, signed, hunsigned, hsigned, hbits⟩ := bits_of_groups h
    refine ⟨unsigned, signed, hunsigned, hsigned, ?_, ?_, hbits, ?_⟩
    · intro hroom
      have hvalue := hunsigned.symm.trans (readUnsigned_eq h hroom)
      exact (Prod.mk.inj (Option.some.inj hvalue)).1
    · intro hroom
      have hvalue := hsigned.symm.trans (readSigned_eq h hroom)
      exact (Prod.mk.inj (Option.some.inj hvalue)).1
    · intro after
      exact ⟨readUnsigned_take_append hunsigned after, readSigned_take_append hsigned after⟩

/-! ## 2. Where the counter starts over -/

/-- Empty groups move the place of the next group on and add nothing. -/
theorem addUp_replicate_append (sum : UInt64) (shift : UInt32) (size n : Nat) (bytes : List UInt8) :
    addUp sum shift size (List.replicate n 0x80 ++ bytes) =
      addUp sum (shift + 7 * UInt32.ofNat n) (size + n) bytes := by
  induction n generalizing shift size with
  | zero => simp
  | succ n ih =>
      have hempty : addGroup sum shift 0x80 = sum := by
        rw [addGroup, show ((0x80 : UInt8) &&& 0x7f).toUInt64 = 0 by decide, UInt64.zero_shiftLeft,
          UInt64.or_zero, ite_self]
      have hsucc : UInt32.ofNat (n + 1) = UInt32.ofNat n + 1 := UInt32.ofNat_add n 1
      rw [List.replicate_succ, List.cons_append, addUp, hempty, if_neg (by decide), ih, hsucc]
      congr 1
      · rw [UInt32.mul_add, UInt32.mul_one, UInt32.add_assoc, UInt32.add_comm 7]
      · omega

/-- Empty groups before the last one. -/
theorem addUp_replicate_last {b : UInt8} (h : isLast b = true) (n : Nat) :
    addUp 0 0 0 (List.replicate n 0x80 ++ [b]) =
      some ⟨addGroup 0 (7 * UInt32.ofNat n) b, 7 * UInt32.ofNat n + 7, b, n + 1⟩ := by
  rw [addUp_replicate_append, addUp, if_pos h, UInt32.zero_add, Nat.zero_add]

theorem findIdx?_replicate_last {b : UInt8} (h : isLast b = true) (n : Nat) :
    (List.replicate n 0x80 ++ [b]).findIdx? isLast = some n := by
  have hsize := map_size_addUp 0 0 0 (List.replicate n 0x80 ++ [b])
  rw [addUp_replicate_last h, Option.map_some] at hsize
  obtain ⟨index, hindex, hn⟩ := Option.map_eq_some_iff.mp hsize.symm
  rw [hindex, show index = n by simp only at hn; omega]

/-- The sum of empty groups and a last one is the last one, moved up. -/
theorem groupSum_replicate_last (b : UInt8) (n : Nat) :
    groupSum (List.replicate n 0x80 ++ [b]) (n + 1) = 2 ^ (7 * n) * (b.toNat % 128) := by
  induction n with
  | zero => rw [List.replicate_zero, List.nil_append, groupSum_one, Nat.mul_zero, pow_zero, Nat.one_mul]
  | succ n ih =>
      rw [List.replicate_succ, List.cons_append, groupSum_cons, ih, place_succ, Nat.mul_assoc]
      exact Nat.zero_add _

/-- A number whose only group stands past the 64th bit is zero. -/
theorem ofNat_groupSum_replicate_last (b : UInt8) {n : Nat} (h : 10 ≤ n) :
    UInt64.ofNat (groupSum (List.replicate n 0x80 ++ [b]) (n + 1)) = 0 := by
  have hlost : (2 : Nat) ^ 64 ∣ 2 ^ (7 * n) * (b.toNat % 128) :=
    (pow_dvd_pow 2 (by omega)).mul_right _
  rw [groupSum_replicate_last, ← UInt64.toNat_inj, UInt64.toNat_ofNat', Nat.mod_eq_zero_of_dvd hlost]
  rfl

/-- The same for a signed number: its sign stands further up still. -/
theorem ofInt_signedSum_replicate_last (b : UInt8) {n : Nat} (h : 10 ≤ n) :
    Int64.ofInt (signedSum (List.replicate n 0x80 ++ [b]) (n + 1)) = 0 := by
  have hsum : (2 : Int) ^ 64 ∣ (groupSum (List.replicate n 0x80 ++ [b]) (n + 1) : Nat) := by
    rw [groupSum_replicate_last]
    exact_mod_cast (pow_dvd_pow 2 (by omega : 64 ≤ 7 * n)).mul_right (b.toNat % 128)
  have hsign : (2 : Int) ^ 64 ∣ 2 ^ (7 * (n + 1)) := pow_dvd_pow 2 (by omega)
  have hlost : (2 : Int) ^ 64 ∣ signedSum (List.replicate n 0x80 ++ [b]) (n + 1) := by
    rw [signedSum]
    split
    · rwa [sub_zero]
    · exact dvd_sub hsum hsign
  rw [← Int64.toInt_inj, Int64.toInt_ofInt]
  show Int.bmod _ (2 ^ 64) = 0
  obtain ⟨k, hk⟩ := hlost
  rw [hk]
  exact Int.bmod_eq_zero_of_dvd ⟨k, rfl⟩

/-- **A group that is not lost.** 613 566 757 empty groups bring the counter back to place 3, so that a last
group of 1 is read as 8 where it should be lost, and the value of the groups is zero. The sign of a signed
number is drawn out from the place after its last group, so one empty group less is enough there: what is
read is -8, and the value is zero again. -/
theorem value_startedOver :
    ((List.replicate 613566757 (0x80 : UInt8) ++ [1]).findIdx? (fun b => b &&& 0x80 == 0) =
        some 613566757 ∧
      readUnsigned (List.replicate 613566757 0x80 ++ [1]) = some (8, 613566758) ∧
      UInt64.ofNat (groupSum (List.replicate 613566757 0x80 ++ [1]) 613566758) = 0) ∧
    ((List.replicate 613566756 (0x80 : UInt8) ++ [0x40]).findIdx? (fun b => b &&& 0x80 == 0) =
        some 613566756 ∧
      readSigned (List.replicate 613566756 0x80 ++ [0x40]) = some (-8, 613566757) ∧
      Int64.ofInt (signedSum (List.replicate 613566756 0x80 ++ [0x40]) 613566757) = 0) := by
  have hone : isLast 1 = true := by decide
  have hsign : isLast 0x40 = true := by decide
  refine ⟨⟨findIdx?_replicate_last hone _, ?_, ofNat_groupSum_replicate_last 1 (by omega)⟩,
    ⟨findIdx?_replicate_last hsign _, ?_, ofInt_signedSum_replicate_last 0x40 (by omega)⟩⟩
  · rw [readUnsigned, addUp_replicate_last hone, Option.map_some]
    decide +kernel
  · rw [readSigned, addUp_replicate_last hsign, Option.map_some]
    decide +kernel

end UnwindTables.Leb128

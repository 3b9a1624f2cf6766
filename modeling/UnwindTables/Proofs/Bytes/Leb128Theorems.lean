/-
UnwindTables.Proofs.Bytes.Leb128Theorems — what is written in groups of seven bits is read back,
and how many bytes it takes.

    readUnsigned (writeUnsigned value ++ rest) = some (value, its size)

and the same for signed values, whatever follows. The readers give the sum of the groups up to the first
byte without its top bit, so the round trips are two facts about what is written: that byte is its last
(`findIdx?_ofNat`, `findIdx?_ofInt`), and the sum is the number (`groupSum_ofNat`, `signedSum_ofInt`). Each is
an induction on what is left to be written.

`length_ofNat_le_iff` says how many bytes a number takes: at most `k + 1` exactly if it is below
`128 ^ (k + 1)`. The search for the size of a length field is about nothing else. It also keeps what is
written short of the place where the counter of the readers starts over.
-/
import UnwindTables.Proofs.Bytes.Leb128ValueTheorems

namespace UnwindTables.Leb128

/-! ## 1. How many bytes are written -/

theorem length_ofNat_pos (n : Nat) : 0 < (ofNat n).length := by
  rw [ofNat]
  split <;> simp

theorem length_ofInt_pos (n : Int) : 0 < (ofInt n).length := by
  rw [ofInt]
  split <;> simp

/-- A number takes at most `k + 1` bytes exactly if it is below `128 ^ (k + 1)`. -/
theorem length_ofNat_le_iff (k n : Nat) : (ofNat n).length ≤ k + 1 ↔ n < 128 ^ (k + 1) := by
  induction k generalizing n with
  | zero =>
      rw [ofNat]
      split
      · simpa
      · have := length_ofNat_pos (n / 128)
        simp only [List.length_cons]
        omega
  | succ k ih =>
      have positive : 0 < 128 ^ k := Nat.pow_pos (by omega)
      rw [ofNat]
      split
      · simp only [List.length_singleton, Nat.pow_succ]
        omega
      · have := ih (n / 128)
        simp only [List.length_cons]
        rw [Nat.pow_succ] at *
        omega

/-- A number that is less than 128 times as large takes at most one byte more. -/
theorem length_ofNat_le_succ {m n : Nat} (h : m < 128 * (n + 1)) :
    (ofNat m).length ≤ (ofNat n).length + 1 := by
  obtain ⟨k, hk⟩ : ∃ k, (ofNat n).length = k + 1 :=
    ⟨(ofNat n).length - 1, by have := length_ofNat_pos n; omega⟩
  have below : n < 128 ^ (k + 1) := (length_ofNat_le_iff k n).mp (by omega)
  rw [hk, length_ofNat_le_iff, Nat.pow_succ]
  omega

/-- A 64-bit value takes at most ten bytes. -/
theorem length_writeUnsigned_le (value : UInt64) : (writeUnsigned value).length ≤ 10 := by
  rw [writeUnsigned, length_ofNat_le_iff 9]
  have := value.toNat_lt
  omega

/-- An integer takes at most `k + 1` bytes if it fits `7 * (k + 1)` bits with a sign. -/
theorem length_ofInt_le (k : Nat) (n : Int) (low : -(64 * 128 ^ k : Nat) ≤ n)
    (high : n < (64 * 128 ^ k : Nat)) : (ofInt n).length ≤ k + 1 := by
  induction k generalizing n with
  | zero =>
      rw [ofInt, if_pos (by omega)]
      simp
  | succ k ih =>
      rw [ofInt]
      split
      · simp
      · simp only [List.length_cons, Nat.pow_succ] at *
        have := ih (n / 128) (by omega) (by omega)
        omega

theorem length_writeSigned_le (value : Int64) : (writeSigned value).length ≤ 10 := by
  have low := Int64.le_toInt value
  have high := Int64.toInt_lt value
  exact length_ofInt_le 9 value.toInt (by omega) (by omega)

/-! ## 2. What is written, as groups -/

/-- The last byte that is written is the first that does not ask for another one. -/
theorem findIdx?_ofNat (n : Nat) (rest : List UInt8) :
    (ofNat n ++ rest).findIdx? isLast = some ((ofNat n).length - 1) := by
  induction n using Nat.strongRecOn with
  | ind n ih =>
    rw [ofNat]
    split
    · next small =>
        have digit : (UInt8.ofNat n).toNat < 128 := by simp; omega
        rw [List.cons_append, List.findIdx?_cons, isLast_eq, decide_eq_true digit]
        rfl
    · next large =>
        have digit : ¬ (UInt8.ofNat (n % 128 + 128)).toNat < 128 := by simp; omega
        have positive := length_ofNat_pos (n / 128)
        rw [List.cons_append, List.findIdx?_cons, isLast_eq, decide_eq_false digit,
          ih (n / 128) (by omega), List.length_cons]
        simp only [Bool.false_eq_true, if_false, Option.map_some, Option.some.injEq]
        omega

/-- The groups of a number add up to it. -/
theorem groupSum_ofNat (n : Nat) (rest : List UInt8) :
    groupSum (ofNat n ++ rest) (ofNat n).length = n := by
  induction n using Nat.strongRecOn with
  | ind n ih =>
    rw [ofNat]
    split
    · next small =>
        have digit : (UInt8.ofNat n).toNat = n := by simp; omega
        rw [List.cons_append, List.length_singleton, groupSum_one, digit, Nat.mod_eq_of_lt small]
    · next large =>
        have digit : (UInt8.ofNat (n % 128 + 128)).toNat = n % 128 + 128 := by simp; omega
        rw [List.cons_append, List.length_cons, groupSum_cons, ih (n / 128) (by omega), digit]
        omega

theorem findIdx?_ofInt (n : Int) (rest : List UInt8) :
    (ofInt n ++ rest).findIdx? isLast = some ((ofInt n).length - 1) := by
  induction h : n.natAbs using Nat.strongRecOn generalizing n with
  | ind size ih =>
    subst h
    rw [ofInt]
    split
    · next small =>
        have digit : (UInt8.ofNat (n % 128).toNat).toNat < 128 := by simp; omega
        rw [List.cons_append, List.findIdx?_cons, isLast_eq, decide_eq_true digit]
        rfl
    · next large =>
        have digit : ¬ (UInt8.ofNat ((n % 128).toNat + 128)).toNat < 128 := by simp; omega
        have positive := length_ofInt_pos (n / 128)
        rw [List.cons_append, List.findIdx?_cons, isLast_eq, decide_eq_false digit,
          ih _ (by omega) (n / 128) rfl, List.length_cons]
        simp only [Bool.false_eq_true, if_false, Option.map_some, Option.some.injEq]
        omega

/-- The groups of an integer add up to it, with the sign of the last one. -/
theorem signedSum_ofInt (n : Int) (rest : List UInt8) :
    signedSum (ofInt n ++ rest) (ofInt n).length = n := by
  induction h : n.natAbs using Nat.strongRecOn generalizing n with
  | ind size ih =>
    subst h
    rw [ofInt]
    split
    · next small =>
        have digit : (UInt8.ofNat (n % 128).toNat).toNat = (n % 128).toNat := by simp; omega
        rw [List.cons_append, List.length_singleton, signedSum_one, digit,
          show ((n % 128).toNat : Int) = n % 128 by omega, Int.bmod_def]
        omega
    · next large =>
        have digit : (UInt8.ofNat ((n % 128).toNat + 128)).toNat = (n % 128).toNat + 128 := by
          simp; omega
        have hrest := ih _ (by omega) (n / 128) rfl
        obtain ⟨index, hindex⟩ : ∃ index, (ofInt (n / 128)).length = index + 1 :=
          ⟨_, (Nat.succ_pred_eq_of_pos (length_ofInt_pos (n / 128))).symm⟩
        rw [hindex] at hrest
        rw [List.cons_append, List.length_cons, hindex, signedSum_cons, hrest, digit]
        omega

/-! ## 3. Reading what was written -/

/-- A number of 64 bits is read back, whatever follows it. -/
theorem readUnsigned_ofNat {n : Nat} (h : n < 2 ^ 64) (rest : List UInt8) :
    readUnsigned (ofNat n ++ rest) = some (UInt64.ofNat n, (ofNat n).length) := by
  have positive := length_ofNat_pos n
  have short := (length_ofNat_le_iff 9 n).mpr (by omega)
  have hread := readUnsigned_eq (findIdx?_ofNat n rest) (by omega)
  rwa [Nat.sub_add_cancel positive, groupSum_ofNat] at hread

theorem readUnsigned_writeUnsigned (value : UInt64) (rest : List UInt8) :
    readUnsigned (writeUnsigned value ++ rest) = some (value, (writeUnsigned value).length) := by
  rw [writeUnsigned, readUnsigned_ofNat value.toNat_lt, UInt64.ofNat_toNat]

theorem readSigned_writeSigned (value : Int64) (rest : List UInt8) :
    readSigned (writeSigned value ++ rest) = some (value, (writeSigned value).length) := by
  have positive := length_ofInt_pos value.toInt
  have short := length_writeSigned_le value
  have hread := readSigned_eq (findIdx?_ofInt value.toInt rest) (by rw [writeSigned] at short; omega)
  rwa [Nat.sub_add_cancel positive, signedSum_ofInt, Int64.ofInt_toInt] at hread

end UnwindTables.Leb128

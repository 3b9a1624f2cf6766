/-
UnwindTables.Proofs.Bytes.Leb128ValueTheorems — the value of a string of groups of seven bits.

    readUnsigned bytes = the sum of (byte i mod 128) * 2 ^ (7 i), up to the first byte without its top bit

modulo `2 ^ 64`, and for a signed number the same with bit 6 of the last group as its sign. The writer
produces one string for each number; this is about every string, however it is padded. The values are those
sums (`readUnsigned_eq`, `readSigned_eq`) as long as the place of the last group, or for a signed number the
place after it, fits the 32 bits of the counter.

## How the proof goes

The invariant of adding up is `addUp_eq`: the sum is the value of the groups so far modulo `2 ^ 64`, and that
value is below the place of the next group. One step keeps it (`toNat_addGroup`), whether the group still has
room in the word, has room for some of its bits, or has none. Where a number ends does not depend on what
has been added up (`map_size_addUp`).
-/
import Mathlib.Algebra.BigOperators.Group.Finset.Basic
import Mathlib.Algebra.BigOperators.Ring.Finset
import Mathlib.Algebra.Order.Ring.Nat
import Mathlib.Tactic.Linarith
import Mathlib.Tactic.Positivity
import Mathlib.Tactic.Ring
import UnwindTables.Bytes.Leb128
import UnwindTables.Proofs.Bytes.WordTheorems

namespace UnwindTables.Leb128

/-! ## 1. Sums of groups -/

/-- The first `size` groups of seven bits, each moved up to its place, as one number. -/
def groupSum (bytes : List UInt8) (size : Nat) : Nat :=
  ∑ i ∈ Finset.range size, (bytes.getD i 0).toNat % 128 * 2 ^ (7 * i)

/-- The same number with bit 6 of the last group as its sign. -/
def signedSum (bytes : List UInt8) (size : Nat) : Int :=
  groupSum bytes size - if bytes.getD (size - 1) 0 &&& 0x40 = 0 then 0 else 2 ^ (7 * size)

/-- What holds of every byte can be tried on every byte. -/
theorem forall_byte {P : UInt8 → Prop} (h : ∀ n : Fin 256, P (UInt8.ofNat n)) (b : UInt8) : P b := by
  have hb := h ⟨b.toNat, b.toNat_lt⟩
  rwa [UInt8.ofNat_toNat] at hb

theorem isLast_eq (b : UInt8) : isLast b = decide (b.toNat < 128) := by
  revert b
  exact forall_byte (by decide +kernel)

/-- What the next place is worth. -/
theorem place_succ (i : Nat) : 2 ^ (7 * (i + 1)) = 128 * 2 ^ (7 * i) := by
  rw [Nat.mul_succ, Nat.pow_add, Nat.mul_comm]

theorem groupSum_cons (b : UInt8) (bytes : List UInt8) (size : Nat) :
    groupSum (b :: bytes) (size + 1) = b.toNat % 128 + 128 * groupSum bytes size := by
  rw [groupSum, Finset.sum_range_succ', groupSum, Finset.mul_sum, Nat.add_comm]
  congr 1
  · simp
  · refine Finset.sum_congr rfl ?_
    intro i _
    rw [List.getD_cons_succ, place_succ, Nat.mul_left_comm]

theorem groupSum_one (b : UInt8) (bytes : List UInt8) :
    groupSum (b :: bytes) 1 = b.toNat % 128 := by
  rw [groupSum_cons, groupSum, Finset.sum_range_zero, Nat.mul_zero, Nat.add_zero]

theorem signedSum_cons (b : UInt8) (bytes : List UInt8) (index : Nat) :
    signedSum (b :: bytes) (index + 2) = b.toNat % 128 + 128 * signedSum bytes (index + 1) := by
  have hlast : (b :: bytes).getD (index + 2 - 1) 0 = bytes.getD (index + 1 - 1) 0 := rfl
  have hpow : (2 : Int) ^ (7 * (index + 2)) = 128 * 2 ^ (7 * (index + 1)) := by
    exact_mod_cast place_succ (index + 1)
  rw [signedSum, groupSum_cons, signedSum, hlast, hpow]
  push_cast
  split <;> ring

/-- Seven bits with the highest of them as their sign. -/
theorem signedGroup_bmod (b : UInt8) :
    ((b.toNat % 128 : Nat) : Int) - (if b &&& 0x40 = 0 then 0 else 128) = (b.toNat : Int).bmod 128 := by
  revert b
  exact forall_byte (by decide +kernel)

theorem signedSum_one (b : UInt8) (bytes : List UInt8) :
    signedSum (b :: bytes) 1 = (b.toNat : Int).bmod 128 := by
  rw [signedSum, groupSum_one, ← signedGroup_bmod]
  rfl

theorem groupSum_lt (bytes : List UInt8) (size : Nat) : groupSum bytes size < 128 ^ size := by
  induction bytes generalizing size with
  | nil =>
      have hzero : groupSum [] size = 0 := by simp [groupSum]
      rw [hzero]
      positivity
  | cons b bytes ih =>
      cases size with
      | zero => simp [groupSum]
      | succ size =>
          have := ih size
          rw [groupSum_cons, pow_succ]
          omega

/-! ## 2. Adding up -/

/-- Joining a word to a sum whose bits are all below its place is adding it. -/
theorem toNat_or_shiftLeft {sum word : UInt64} {shift : UInt32} (h : shift.toNat < 64)
    (hsum : sum.toNat < 2 ^ shift.toNat) :
    (sum ||| word <<< shift.toUInt64).toNat =
      (sum.toNat + 2 ^ shift.toNat * word.toNat) % 2 ^ 64 := by
  have hroom : (2 : Nat) ^ 64 = 2 ^ shift.toNat * 2 ^ (64 - shift.toNat) := by
    rw [← pow_add]
    congr 1
    omega
  have hshifted : (word <<< shift.toUInt64).toNat =
      2 ^ shift.toNat * (word.toNat % 2 ^ (64 - shift.toNat)) := by
    rw [UInt64.toNat_shiftLeft, UInt32.toNat_toUInt64, Nat.mod_eq_of_lt h, Nat.shiftLeft_eq,
      Nat.mul_comm, hroom, Nat.mul_mod_mul_left]
  rw [UInt64.toNat_or, hshifted, Nat.or_comm, ← Nat.two_pow_add_eq_or_of_lt hsum, hroom, Nat.mod_mul,
    Nat.add_mul_mod_self_left, Nat.mod_eq_of_lt hsum, Nat.add_mul_div_left _ _ (by positivity),
    Nat.div_eq_of_lt hsum, Nat.zero_add, Nat.add_comm]

/-- One step of adding up: what has been read so far is right modulo `2 ^ 64`, below the place of the next
group and past the 64th bit alike. -/
theorem toNat_addGroup {sum : UInt64} {shift : UInt32} {total : Nat} (b : UInt8)
    (hsum : sum.toNat = total % 2 ^ 64) (hbelow : total < 2 ^ shift.toNat) :
    (addGroup sum shift b).toNat = (total + 2 ^ shift.toNat * (b.toNat % 128)) % 2 ^ 64 := by
  have hgroup : (b &&& 0x7f).toUInt64.toNat = b.toNat % 128 := by
    rw [UInt8.toNat_toUInt64, UInt8.toNat_and]
    exact Nat.and_two_pow_sub_one_eq_mod b.toNat 7
  rw [addGroup]
  split
  · next h =>
      have hshift : shift.toNat < 64 := UInt32.lt_iff_toNat_lt.mp h
      have htotal : total % 2 ^ 64 = total :=
        Nat.mod_eq_of_lt (hbelow.trans (Nat.pow_lt_pow_right (by omega) hshift))
      rw [htotal] at hsum
      rw [toNat_or_shiftLeft hshift (hsum ▸ hbelow), hgroup, hsum]
  · next h =>
      have hshift : 64 ≤ shift.toNat := Nat.not_lt.mp fun hlt => h (UInt32.lt_iff_toNat_lt.mpr hlt)
      have hlost : (2 : Nat) ^ 64 ∣ 2 ^ shift.toNat * (b.toNat % 128) :=
        (pow_dvd_pow 2 hshift).mul_right _
      rw [hsum, Nat.add_mod, Nat.mod_eq_zero_of_dvd hlost, Nat.add_zero, Nat.mod_mod]

/-- A group at the next place leaves the sum below the place after it. -/
theorem addGroup_lt {total size : Nat} (b : UInt8) (h : total < 2 ^ (7 * size)) :
    total + 2 ^ (7 * size) * (b.toNat % 128) < 2 ^ (7 * (size + 1)) := by
  have hgroup : b.toNat % 128 < 128 := Nat.mod_lt _ (by decide)
  rw [place_succ]
  nlinarith

/-- Adding up from any place on, as long as the place of the last group fits the counter. -/
theorem addUp_eq {sum : UInt64} {shift : UInt32} {total size index : Nat} {bytes : List UInt8}
    (hsum : sum.toNat = total % 2 ^ 64) (hshift : shift.toNat = 7 * size)
    (hbelow : total < 2 ^ (7 * size)) (hindex : bytes.findIdx? isLast = some index)
    (hroom : 7 * (size + index) < 2 ^ 32) :
    addUp sum shift size bytes = some
      { sum := UInt64.ofNat (total + 2 ^ (7 * size) * groupSum bytes (index + 1))
        shift := UInt32.ofNat (7 * (size + index + 1))
        last := bytes.getD index 0
        size := size + index + 1 } := by
  induction bytes generalizing sum shift total size index with
  | nil => cases hindex
  | cons b bytes ih =>
      have hjoined := toNat_addGroup b hsum (hshift ▸ hbelow)
      rw [hshift] at hjoined
      have hnext : shift + 7 = UInt32.ofNat (7 * (size + 1)) := by
        apply UInt32.toNat_inj.mp
        rw [UInt32.toNat_add, hshift, UInt32.toNat_ofNat']
        rfl
      rw [List.findIdx?_cons] at hindex
      rw [addUp]
      split at hindex
      · next hlast =>
          obtain rfl := Option.some.inj hindex
          have hvalue : addGroup sum shift b =
              UInt64.ofNat (total + 2 ^ (7 * size) * groupSum (b :: bytes) 1) := by
            apply UInt64.toNat_inj.mp
            rw [hjoined, UInt64.toNat_ofNat', groupSum_one]
          rw [if_pos hlast, hvalue, hnext]
          rfl
      · next hmore =>
          obtain ⟨next, hrest, rfl⟩ := Option.map_eq_some_iff.mp hindex
          have hplace : (UInt32.ofNat (7 * (size + 1))).toNat = 7 * (size + 1) := by
            rw [UInt32.toNat_ofNat', Nat.mod_eq_of_lt (by omega)]
          rw [if_neg hmore, hnext,
            ih hjoined hplace (addGroup_lt b hbelow) hrest (by omega), groupSum_cons, place_succ,
            List.getD_cons_succ, show size + 1 + next + 1 = size + (next + 1) + 1 by omega,
            show total + 2 ^ (7 * size) * (b.toNat % 128) +
                128 * 2 ^ (7 * size) * groupSum bytes (next + 1) =
              total + 2 ^ (7 * size) * (b.toNat % 128 + 128 * groupSum bytes (next + 1)) by ring]

/-- Drawing out the sign of a sum takes from it what the place above it is worth. From the 64th bit on there
is nothing to take that from, and it makes no difference. -/
theorem signed_ofNat {total size : Nat} {shift : UInt32} (b : UInt8) (h : total < 2 ^ shift.toNat) :
    (Groups.mk (UInt64.ofNat total) shift b size).signed =
      UInt64.ofInt (total - if b &&& 0x40 = 0 then 0 else 2 ^ shift.toNat) := by
  apply UInt64.toNat_inj.mp
  rw [Word.toNat_ofInt, Groups.signed]
  by_cases hsign : b &&& 0x40 = 0
  · rw [if_neg (fun hc => hc.2 hsign), if_pos hsign, UInt64.toNat_ofNat']
    omega
  · rw [if_neg hsign]
    by_cases hroom : shift.toNat < 64
    · have hword : (2 : Nat) ^ shift.toNat < 2 ^ 64 := Nat.pow_lt_pow_right (by omega) hroom
      have htotal : (UInt64.ofNat total).toNat = total := by
        rw [UInt64.toNat_ofNat', Nat.mod_eq_of_lt (h.trans hword)]
      have hmod : ((total + 2 ^ shift.toNat * (2 ^ 64 - 1) : Nat) : Int) =
          total - 2 ^ shift.toNat + 2 ^ shift.toNat * 2 ^ 64 := by
        push_cast
        ring
      have hones : (-1 : UInt64).toNat = 2 ^ 64 - 1 := by decide
      rw [if_pos ⟨UInt32.lt_iff_toNat_lt.mpr hroom, hsign⟩,
        toNat_or_shiftLeft hroom (by rwa [htotal]), htotal, hones, ← Int.add_mul_emod_self_right, ← hmod]
      generalize total + 2 ^ shift.toNat * (2 ^ 64 - 1) = sum
      omega
    · have hlost : (2 : Int) ^ 64 ∣ 2 ^ shift.toNat := pow_dvd_pow 2 (Nat.not_lt.mp hroom)
      rw [if_neg (fun hc => hroom (UInt32.lt_iff_toNat_lt.mp hc.1)), UInt64.toNat_ofNat', Int.sub_emod,
        Int.emod_eq_zero_of_dvd hlost]
      omega

/-! ## 3. Where a number ends -/

/-- Where a number ends depends on its top bits only. -/
theorem map_size_addUp (sum : UInt64) (shift : UInt32) (size : Nat) (bytes : List UInt8) :
    (addUp sum shift size bytes).map Groups.size =
      (bytes.findIdx? isLast).map fun index => size + index + 1 := by
  induction bytes generalizing sum shift size with
  | nil => rfl
  | cons b bytes ih =>
      rw [addUp, List.findIdx?_cons]
      split
      · rfl
      · rw [ih, Option.map_map]
        refine congrArg (Option.map · _) ?_
        funext index
        show size + 1 + index + 1 = size + (index + 1) + 1
        omega

theorem addUp_eq_none_iff {sum : UInt64} {shift : UInt32} {size : Nat} {bytes : List UInt8} :
    addUp sum shift size bytes = none ↔ ∀ b ∈ bytes, b &&& 0x80 ≠ 0 := by
  have hsize := congrArg Option.isNone (map_size_addUp sum shift size bytes)
  rw [Option.isNone_map, Option.isNone_map] at hsize
  rw [← Option.isNone_iff_eq_none, hsize, Option.isNone_iff_eq_none, List.findIdx?_eq_none_iff]
  simp only [isLast, beq_eq_false_iff_ne, ne_eq]

/-- The sizes that the readers return. -/
theorem map_size_readUnsigned (bytes : List UInt8) :
    (readUnsigned bytes).map Prod.snd = (bytes.findIdx? isLast).map (· + 1) := by
  have hsize := map_size_addUp 0 0 0 bytes
  simp only [Nat.zero_add] at hsize
  rw [readUnsigned, Option.map_map, ← hsize]
  rfl

theorem map_size_readSigned (bytes : List UInt8) :
    (readSigned bytes).map Prod.snd = (bytes.findIdx? isLast).map (· + 1) := by
  have hsize := map_size_addUp 0 0 0 bytes
  simp only [Nat.zero_add] at hsize
  rw [readSigned, Option.map_map, ← hsize]
  rfl

theorem findIdx?_of_readUnsigned {bytes : List UInt8} {value : UInt64} {size : Nat}
    (h : readUnsigned bytes = some (value, size)) :
    ∃ index, bytes.findIdx? isLast = some index ∧ size = index + 1 := by
  have hsize := map_size_readUnsigned bytes
  rw [h] at hsize
  obtain ⟨index, hindex, rfl⟩ := Option.map_eq_some_iff.mp hsize.symm
  exact ⟨index, hindex, rfl⟩

theorem findIdx?_of_readSigned {bytes : List UInt8} {value : Int64} {size : Nat}
    (h : readSigned bytes = some (value, size)) :
    ∃ index, bytes.findIdx? isLast = some index ∧ size = index + 1 := by
  have hsize := map_size_readSigned bytes
  rw [h] at hsize
  obtain ⟨index, hindex, rfl⟩ := Option.map_eq_some_iff.mp hsize.symm
  exact ⟨index, hindex, rfl⟩

/-- What follows a number makes no difference to it. -/
theorem addUp_take_append {sum : UInt64} {shift : UInt32} {size : Nat} {bytes : List UInt8}
    {groups : Groups} (h : addUp sum shift size bytes = some groups) (after : List UInt8) :
    addUp sum shift size (bytes.take (groups.size - size) ++ after) = some groups := by
  induction bytes generalizing sum shift size with
  | nil => cases h
  | cons b bytes ih =>
      have hsize := (size_of_addUp h).1
      rw [addUp] at h
      rw [show groups.size - size = (groups.size - (size + 1)) + 1 by omega, List.take_succ_cons,
        List.cons_append, addUp]
      split at h
      · next hlast => rwa [if_pos hlast]
      · next hmore => rw [if_neg hmore, ih h]

theorem readUnsigned_take_append {bytes : List UInt8} {value : UInt64} {size : Nat}
    (h : readUnsigned bytes = some (value, size)) (after : List UInt8) :
    readUnsigned (bytes.take size ++ after) = some (value, size) := by
  obtain ⟨groups, hgroups, hvalue⟩ := Option.map_eq_some_iff.mp h
  obtain ⟨rfl, rfl⟩ := Prod.mk.inj hvalue
  rw [readUnsigned]
  exact congrArg (Option.map _) (addUp_take_append hgroups after)

theorem readSigned_take_append {bytes : List UInt8} {value : Int64} {size : Nat}
    (h : readSigned bytes = some (value, size)) (after : List UInt8) :
    readSigned (bytes.take size ++ after) = some (value, size) := by
  obtain ⟨groups, hgroups, hvalue⟩ := Option.map_eq_some_iff.mp h
  obtain ⟨rfl, rfl⟩ := Prod.mk.inj hvalue
  rw [readSigned]
  exact congrArg (Option.map _) (addUp_take_append hgroups after)

/-! ## 4. What the readers compute -/

section
variable {bytes : List UInt8} {index : Nat}

/-- Adding up from the start. -/
theorem addUp_start (h : bytes.findIdx? isLast = some index) (hroom : 7 * index < 2 ^ 32) :
    addUp 0 0 0 bytes = some
      { sum := UInt64.ofNat (groupSum bytes (index + 1))
        shift := UInt32.ofNat (7 * (index + 1))
        last := bytes.getD index 0
        size := index + 1 } := by
  have hsum := @addUp_eq 0 0 0 0 index bytes rfl rfl (by decide) h (by omega)
  simpa only [Nat.mul_zero, Nat.pow_zero, Nat.one_mul, Nat.zero_add] using hsum

theorem readUnsigned_eq (h : bytes.findIdx? isLast = some index) (hroom : 7 * index < 2 ^ 32) :
    readUnsigned bytes = some (UInt64.ofNat (groupSum bytes (index + 1)), index + 1) := by
  rw [readUnsigned, addUp_start h hroom]
  rfl

theorem readSigned_eq (h : bytes.findIdx? isLast = some index) (hroom : 7 * (index + 1) < 2 ^ 32) :
    readSigned bytes = some (Int64.ofInt (signedSum bytes (index + 1)), index + 1) := by
  have hshift : (UInt32.ofNat (7 * (index + 1))).toNat = 7 * (index + 1) := by
    rw [UInt32.toNat_ofNat', Nat.mod_eq_of_lt hroom]
  have hbelow : groupSum bytes (index + 1) < 2 ^ (7 * (index + 1)) := by
    rw [pow_mul]
    exact groupSum_lt bytes (index + 1)
  rw [readSigned, addUp_start h (by omega), Option.map_some,
    signed_ofNat _ (hshift.symm ▸ hbelow), hshift, Word.toInt64_ofInt]
  rfl

end

end UnwindTables.Leb128

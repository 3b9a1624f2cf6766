/-
UnwindTables.Bytes.Leb128 — numbers in groups of seven bits.

A number is stored least significant group first, one group a byte; the top bit of a byte says
that another one follows. The last byte of a signed number carries the sign in its bit 6.

* `Leb128.readUnsigned`, `Leb128.readSigned` — the 64-bit value stored at the start of some bytes,
  and how many bytes it takes.
* `Leb128.writeUnsigned`, `Leb128.writeSigned` — the shortest encoding of a value.

Both readers add the groups up from the front (`Leb128.addUp`). The place of the next group is a
counter of 32 bits: a group whose place is past the 64th bit is lost, and the counter starts over
after `2 ^ 32 / 7` bytes, so that it comes by the first 64 places again.
-/

namespace UnwindTables.Leb128

/-- Whether a byte is the last one of a number: its top bit is clear. -/
def isLast (b : UInt8) : Bool := b &&& 0x80 == 0

/-- The groups of a number, up to its last byte. -/
structure Groups where
  /-- What they add up to. -/
  sum : UInt64
  /-- The place of a group after them. -/
  shift : UInt32
  /-- The last byte. -/
  last : UInt8
  /-- How many there are. -/
  size : Nat
deriving DecidableEq, Repr

/-- A sum with the group of one more byte, at the place that `shift` counts. -/
def addGroup (sum : UInt64) (shift : UInt32) (b : UInt8) : UInt64 :=
  if shift < 64 then sum ||| (b &&& 0x7f).toUInt64 <<< shift.toUInt64 else sum

/-- The groups of the number at the start of some bytes, where `size` groups have been added up to
`sum` already and `shift` is the place of the next one. There are none if every byte asks for
another one. -/
def addUp (sum : UInt64) (shift : UInt32) (size : Nat) : List UInt8 → Option Groups
  | [] => none
  | b :: bytes =>
    if isLast b then
      some ⟨addGroup sum shift b, shift + 7, b, size + 1⟩
    else
      addUp (addGroup sum shift b) (shift + 7) (size + 1) bytes

/-- The sum with the sign of the last group drawn out, if there is room for it. -/
def Groups.signed (groups : Groups) : UInt64 :=
  if groups.shift < 64 ∧ groups.last &&& 0x40 ≠ 0 then
    groups.sum ||| (-1 : UInt64) <<< groups.shift.toUInt64
  else
    groups.sum

/-- The unsigned value stored at the start of `bytes`, and its size. -/
def readUnsigned (bytes : List UInt8) : Option (UInt64 × Nat) :=
  (addUp 0 0 0 bytes).map fun groups => (groups.sum, groups.size)

/-- The signed value stored at the start of `bytes`, and its size. -/
def readSigned (bytes : List UInt8) : Option (Int64 × Nat) :=
  (addUp 0 0 0 bytes).map fun groups => (groups.signed.toInt64, groups.size)

/-- The groups of a natural number, with the continuation bit on all but the last. -/
def ofNat (n : Nat) : List UInt8 :=
  if n < 128 then [UInt8.ofNat n] else UInt8.ofNat (n % 128 + 128) :: ofNat (n / 128)

/-- The groups of an integer. Seven bits with a sign hold the numbers from `-64` to `63`, and the
encoding ends as soon as what is left is one of them. -/
def ofInt (n : Int) : List UInt8 :=
  if -64 ≤ n ∧ n < 64 then
    [UInt8.ofNat (n % 128).toNat]
  else
    UInt8.ofNat ((n % 128).toNat + 128) :: ofInt (n / 128)
termination_by n.natAbs
decreasing_by omega

/-- The shortest encoding of an unsigned value. -/
def writeUnsigned (value : UInt64) : List UInt8 := ofNat value.toNat

/-- The shortest encoding of a signed value. -/
def writeSigned (value : Int64) : List UInt8 := ofInt value.toInt

/-! ## How much is read -/

theorem size_of_addUp {sum : UInt64} {shift : UInt32} {size : Nat} {bytes : List UInt8}
    {groups : Groups} (h : addUp sum shift size bytes = some groups) :
    size < groups.size ∧ groups.size ≤ size + bytes.length := by
  induction bytes generalizing sum shift size with
  | nil => cases h
  | cons b bytes ih =>
      rw [addUp] at h
      rw [List.length_cons]
      split at h
      · obtain rfl := Option.some.inj h
        exact ⟨Nat.lt_succ_self _, by simp only; omega⟩
      · have := ih h
        omega

theorem size_of_readUnsigned {bytes : List UInt8} {value : UInt64} {size : Nat}
    (h : readUnsigned bytes = some (value, size)) : 0 < size ∧ size ≤ bytes.length := by
  obtain ⟨groups, hgroups, hvalue⟩ := Option.map_eq_some_iff.mp h
  obtain ⟨-, rfl⟩ := Prod.mk.inj hvalue
  have := size_of_addUp hgroups
  omega

theorem size_of_readSigned {bytes : List UInt8} {value : Int64} {size : Nat}
    (h : readSigned bytes = some (value, size)) : 0 < size ∧ size ≤ bytes.length := by
  obtain ⟨groups, hgroups, hvalue⟩ := Option.map_eq_some_iff.mp h
  obtain ⟨-, rfl⟩ := Prod.mk.inj hvalue
  have := size_of_addUp hgroups
  omega

end UnwindTables.Leb128

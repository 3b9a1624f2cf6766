/-
UnwindTables.Bytes.Order — fixed-width numbers as bytes, in either byte order.

* `capacity` — how many numbers a field of a given width can hold.
* `ByteOrder.value` — the number that a string of bytes spells.
* `ByteOrder.bytes` — the bytes of a given width that spell a number, taken modulo that width.
* `ByteOrder.read?` — the number stored in the first bytes of an input that may be too short.

Big-endian spelling is little-endian spelling reversed, so every fact about one order is a fact
about the other.
-/

namespace UnwindTables

/-- How many numbers a field of `width` bytes can hold. -/
def capacity : (width : Nat) → Nat
  | 0 => 1
  | width + 1 => 256 * capacity width

/-- The order in which the bytes of a fixed-width number are stored. -/
inductive ByteOrder where
  /-- Least significant byte first. -/
  | little
  /-- Most significant byte first. -/
  | big
deriving DecidableEq, Repr

namespace ByteOrder

/-- The number whose digits to base 256 are the given bytes, least significant first. -/
def littleValue : List UInt8 → Nat
  | [] => 0
  | b :: bytes => b.toNat + 256 * littleValue bytes

/-- The lowest `width` digits of `n` to base 256, least significant first. -/
def littleBytes : (width n : Nat) → List UInt8
  | 0, _ => []
  | width + 1, n => UInt8.ofNat n :: littleBytes width (n / 256)

/-- The number that `bytes` spell. -/
def value (order : ByteOrder) (bytes : List UInt8) : Nat :=
  match order with
  | .little => littleValue bytes
  | .big => littleValue bytes.reverse

/-- The `width` bytes that spell `n` modulo the capacity of the field. -/
def bytes (order : ByteOrder) (width n : Nat) : List UInt8 :=
  match order with
  | .little => littleBytes width n
  | .big => (littleBytes width n).reverse

/-- The number stored in the first `width` bytes of `input`, if it has that many. -/
def read? (order : ByteOrder) (width : Nat) (input : List UInt8) : Option Nat :=
  let field := input.take width
  if field.length = width then some (order.value field) else none

/-! ## Spelling and reading agree -/

@[simp] theorem length_littleBytes (width n : Nat) : (littleBytes width n).length = width := by
  induction width generalizing n with
  | zero => rfl
  | succ width ih => simp [littleBytes, ih]

@[simp] theorem length_bytes (order : ByteOrder) (width n : Nat) :
    (order.bytes width n).length = width := by
  cases order <;> simp [bytes]

theorem littleValue_littleBytes (width n : Nat) :
    littleValue (littleBytes width n) = n % capacity width := by
  induction width generalizing n with
  | zero => simp [littleBytes, littleValue, capacity, Nat.mod_one]
  | succ width ih =>
      have digit : (UInt8.ofNat n).toNat = n % 256 := by simp
      rw [littleBytes, littleValue, ih, digit, capacity, Nat.mod_mul]

theorem value_bytes (order : ByteOrder) (width n : Nat) :
    order.value (order.bytes width n) = n % capacity width := by
  cases order <;> simp [value, bytes, littleValue_littleBytes]

/-- What was spelt is read back, whatever follows it. -/
theorem read?_bytes_append (order : ByteOrder) (width n : Nat) (rest : List UInt8) :
    order.read? width (order.bytes width n ++ rest) = some (n % capacity width) := by
  simp [read?, value_bytes]

end ByteOrder

end UnwindTables

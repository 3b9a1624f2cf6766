/-
UnwindTables.Pointer.Value — the values of encoded pointers as bytes.

* `ValueFormat.read?` — the value stored at the start of some bytes and its size; signed formats
  are extended by their sign to 64 bits. There is none if the bytes end too early.
* `ValueFormat.write?` — the bytes that store a value. There are none if the format is too narrow.

Where an address takes four bytes, signed formats store the value as a signed number of 32 bits.
-/
import UnwindTables.Bytes.Order
import UnwindTables.Bytes.Leb128
import UnwindTables.Pointer.Format

namespace UnwindTables

/-- The 64-bit value of a two's complement number of `width` bytes. -/
def signExtended (width n : Nat) : UInt64 :=
  UInt64.ofInt ((n : Int).bmod (capacity width))

/-- The bytes of `value` in `width` bytes without a sign, if it fits. -/
def unsignedField? (order : ByteOrder) (width : Nat) (value : UInt64) : Option (List UInt8) :=
  if value.toNat < capacity width then some (order.bytes width value.toNat) else none

/-- The bytes of `value` in `width` bytes with a sign, if it fits. -/
def signedField? (order : ByteOrder) (width : Nat) (value : Int64) : Option (List UInt8) :=
  if value.toInt.bmod (capacity width) = value.toInt then
    some (order.bytes width value.toUInt64.toNat)
  else
    none

namespace ValueFormat

/-- The value stored at the start of `bytes` and its size. -/
def read? (format : ValueFormat) (order : ByteOrder) (addressSize : AddressSize)
    (bytes : List UInt8) : Option (UInt64 × Nat) :=
  match format.size? addressSize.bytes with
  | some width =>
    (order.read? width bytes).map fun n =>
      (if format.isSigned then signExtended width n else UInt64.ofNat n, width)
  | none =>
    if format.isSigned then
      (Leb128.readSigned bytes).map fun (value, size) => (value.toUInt64, size)
    else
      Leb128.readUnsigned bytes

/-- The bytes that store `value`. -/
def write? (format : ValueFormat) (order : ByteOrder) (addressSize : AddressSize)
    (value : UInt64) : Option (List UInt8) :=
  match format with
  | absptr | signed => some (order.bytes addressSize.bytes value.toNat)
  | udata2 => unsignedField? order 2 value
  | udata4 => unsignedField? order 4 value
  | sdata2 => signedField? order 2 (addressSize.signed value)
  | sdata4 => signedField? order 4 (addressSize.signed value)
  | udata8 | sdata8 => some (order.bytes 8 value.toNat)
  | uleb128 => some (Leb128.writeUnsigned value)
  | sleb128 => some (Leb128.writeSigned (addressSize.signed value))

/-- A stored value takes at least one byte, and no more than there are. -/
theorem size_of_read? {format : ValueFormat} {order : ByteOrder} {addressSize : AddressSize}
    {bytes : List UInt8} {value : UInt64} {size : Nat}
    (h : format.read? order addressSize bytes = some (value, size)) :
    0 < size ∧ size ≤ bytes.length := by
  have fixed {width n : Nat} (hr : order.read? width bytes = some n) : width ≤ bytes.length := by
    simp only [ByteOrder.read?, List.length_take] at hr
    split at hr
    · omega
    · simp at hr
  unfold read? at h
  split at h
  · next width hw =>
      obtain ⟨n, hr, hn⟩ := Option.map_eq_some_iff.1 h
      have positive : 0 < width := by
        cases format <;> cases addressSize <;> simp_all [size?, AddressSize.bytes] <;> omega
      simp only [Prod.mk.injEq] at hn
      have := fixed hr
      omega
  · split at h
    · obtain ⟨⟨value, n⟩, hr, hn⟩ := Option.map_eq_some_iff.1 h
      obtain ⟨-, rfl⟩ := Prod.mk.inj hn
      exact Leb128.size_of_readSigned hr
    · exact Leb128.size_of_readUnsigned h

end ValueFormat

end UnwindTables

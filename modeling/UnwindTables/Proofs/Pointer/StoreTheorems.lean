/-
UnwindTables.Proofs.Pointer.StoreTheorems — a stored pointer resolves to the address it was stored
for.

    store encoding site address = .ok bytes →
      resolve encoding site (bytes ++ rest) = .ok (pointer to truncate address, bytes.length)

The proof is layered like the definitions. `ValueFormat.read?_write?` is about values: what is read
back agrees with what was written in the bits that an address has, which is all that a format has to
keep. `PointerEncoding.resolve_store` adds the base on one side and takes it away on the other.

The sizes come last. A format of fixed size stores every value in that size, and only the formats in
groups of seven bits can store two values in different sizes; those never fail.
-/
import UnwindTables.Pointer.Resolve
import UnwindTables.Pointer.Store
import UnwindTables.Proofs.Bytes.Leb128Theorems

namespace UnwindTables

/-! ## 1. Addresses of a size -/

namespace AddressSize

/-- Cutting a value to the size of an address keeps its lowest bits. -/
theorem toNat_truncate (size : AddressSize) (value : UInt64) :
    (size.truncate value).toNat = value.toNat % capacity size.bytes := by
  cases size with
  | four =>
      show (value &&& 0xffffffff).toNat = value.toNat % 2 ^ 32
      rw [UInt64.toNat_and]
      exact Nat.and_two_pow_sub_one_eq_mod value.toNat 32
  | eight =>
      show value.toNat = value.toNat % 2 ^ 64
      have := value.toNat_lt
      omega

/-- Two values agree once they are cut exactly if they agree modulo the addresses there are. -/
theorem truncate_eq_iff (size : AddressSize) (a b : UInt64) :
    size.truncate a = size.truncate b ↔
      a.toNat % capacity size.bytes = b.toNat % capacity size.bytes := by
  rw [← UInt64.toNat_inj, toNat_truncate, toNat_truncate]

@[simp] theorem truncate_truncate (size : AddressSize) (value : UInt64) :
    size.truncate (size.truncate value) = size.truncate value := by
  rw [truncate_eq_iff, toNat_truncate, Nat.mod_mod]

/-- What is added to a base may be cut before it is added. -/
theorem truncate_add {size : AddressSize} {a b : UInt64} (base : UInt64)
    (h : size.truncate a = size.truncate b) :
    size.truncate (base + a) = size.truncate (base + b) := by
  rw [truncate_eq_iff] at *
  rw [UInt64.toNat_add, UInt64.toNat_add]
  cases size with
  | four =>
      change a.toNat % 2 ^ 32 = b.toNat % 2 ^ 32 at h
      show (base.toNat + a.toNat) % 2 ^ 64 % 2 ^ 32 = (base.toNat + b.toNat) % 2 ^ 64 % 2 ^ 32
      omega
  | eight =>
      change a.toNat % 2 ^ 64 = b.toNat % 2 ^ 64 at h
      show (base.toNat + a.toNat) % 2 ^ 64 % 2 ^ 64 = (base.toNat + b.toNat) % 2 ^ 64 % 2 ^ 64
      omega

/-- The signed reading of a value of the size of an address. -/
theorem toInt_signed (size : AddressSize) (value : UInt64) :
    (size.signed value).toInt = (value.toNat : Int).bmod (capacity size.bytes) := by
  cases size with
  | four => exact Word.toInt_lowerHalf value
  | eight => exact Word.toInt_toInt64 value

/-- The signed reading of a value agrees with it in the bits that an address has. -/
theorem truncate_signed (size : AddressSize) (value : UInt64) :
    size.truncate (size.signed value).toUInt64 = size.truncate value := by
  rw [truncate_eq_iff]
  have word := Word.toNat_toUInt64 (size.signed value)
  have low : (size.signed value).toInt % capacity size.bytes
      = (value.toNat : Int) % capacity size.bytes := by
    rw [toInt_signed]
    exact Int.bmod_emod
  cases size with
  | four =>
      simp only [bytes, capacity_four] at low ⊢
      omega
  | eight =>
      simp only [bytes, capacity_eight] at low ⊢
      omega

end AddressSize

/-! ## 2. Values -/

/-- The sign of a number of `width` bytes does not depend on the bytes above it. -/
theorem signExtended_mod (width n : Nat) :
    signExtended width (n % capacity width) = UInt64.ofInt ((n : Int).bmod (capacity width)) := by
  rw [signExtended, Int.natCast_emod, Int.emod_bmod]

namespace ValueFormat

variable {format : ValueFormat} {order : ByteOrder} {size : AddressSize} {value : UInt64}
  {bytes : List UInt8}

/-- What a format of fixed size reads from a field that spells `n`. -/
def extended (format : ValueFormat) (width n : Nat) : UInt64 :=
  if format.isSigned then signExtended width (n % capacity width)
  else UInt64.ofNat (n % capacity width)

theorem extended_signed (h : format.isSigned = true) (width n : Nat) :
    format.extended width n = signExtended width (n % capacity width) := if_pos h

theorem extended_unsigned (h : ¬ format.isSigned = true) (width n : Nat) :
    format.extended width n = UInt64.ofNat (n % capacity width) := if_neg h

theorem read?_bytes_append {width : Nat} (hw : format.size? size.bytes = some width) (n : Nat)
    (rest : List UInt8) :
    format.read? order size (order.bytes width n ++ rest)
      = some (format.extended width n, width) := by
  rw [read?, hw]
  simp only [ByteOrder.read?_bytes_append, Option.map_some, extended]

/-- A field that has room for the value as it is. -/
theorem bytes_of_unsignedField? {width : Nat}
    (h : unsignedField? order width value = some bytes) :
    bytes = order.bytes width value.toNat ∧ value.toNat % capacity width = value.toNat := by
  unfold unsignedField? at h
  split at h
  · next fits =>
      simp only [Option.some.injEq] at h
      exact ⟨h.symm, Nat.mod_eq_of_lt fits⟩
  · simp at h

/-- A field that has room for the value with its sign. -/
theorem bytes_of_signedField? {width : Nat} {value : Int64}
    (h : signedField? order width value = some bytes) :
    bytes = order.bytes width value.toUInt64.toNat ∧
      value.toInt.bmod (capacity width) = value.toInt := by
  unfold signedField? at h
  split at h
  · next fits =>
      simp only [Option.some.injEq] at h
      exact ⟨h.symm, fits⟩
  · simp at h

/-- What is read back from a signed field that has room for the value. -/
theorem signExtended_toUInt64 {width : Nat} {value : Int64} (hw : width ≤ 8)
    (fits : value.toInt.bmod (capacity width) = value.toInt) :
    signExtended width (value.toUInt64.toNat % capacity width) = value.toUInt64 := by
  have divides : (capacity width : Int) ∣ 2 ^ 64 := by
    have all : ∀ w : Fin 9, (capacity w.val : Int) ∣ 2 ^ 64 := by decide
    exact all ⟨width, by omega⟩
  rw [signExtended_mod, Word.toNat_toUInt64, ← Int.emod_bmod, Int.emod_emod_of_dvd _ divides,
    Int.emod_bmod, fits, Word.ofInt_toInt]

/-- A format of fixed size stores a value in that size, and what it reads back agrees with the
value in the bits that an address has. -/
theorem extended_of_write? {width : Nat} (hw : format.size? size.bytes = some width)
    (h : format.write? order size value = some bytes) :
    ∃ n, bytes = order.bytes width n ∧
      size.truncate (format.extended width n) = size.truncate value := by
  cases format with
  | uleb128 | sleb128 => simp [size?] at hw
  | absptr =>
      obtain rfl : size.bytes = width := by simpa [size?] using hw
      obtain rfl : order.bytes size.bytes value.toNat = bytes := by simpa [write?] using h
      refine ⟨value.toNat, rfl, ?_⟩
      rw [AddressSize.truncate_eq_iff, extended_unsigned (by decide), UInt64.toNat_ofNat']
      cases size with
      | four =>
          show value.toNat % 2 ^ 32 % 2 ^ 64 % 2 ^ 32 = value.toNat % 2 ^ 32
          omega
      | eight =>
          show value.toNat % 2 ^ 64 % 2 ^ 64 % 2 ^ 64 = value.toNat % 2 ^ 64
          omega
  | udata8 =>
      obtain rfl : 8 = width := by simpa [size?] using hw
      obtain rfl : order.bytes 8 value.toNat = bytes := by simpa [write?] using h
      refine ⟨value.toNat, rfl, ?_⟩
      rw [extended_unsigned (by decide), capacity_eight, Nat.mod_eq_of_lt value.toNat_lt,
        UInt64.ofNat_toNat]
  | udata2 | udata4 =>
      simp only [size?, Option.some.injEq] at hw
      subst hw
      obtain ⟨rfl, fits⟩ := bytes_of_unsignedField? h
      refine ⟨value.toNat, rfl, ?_⟩
      rw [extended_unsigned (by decide), fits, UInt64.ofNat_toNat]
  | signed =>
      obtain rfl : size.bytes = width := by simpa [size?] using hw
      obtain rfl : order.bytes size.bytes value.toNat = bytes := by simpa [write?] using h
      refine ⟨value.toNat, rfl, ?_⟩
      rw [extended_signed rfl, signExtended_mod, ← AddressSize.toInt_signed, Word.ofInt_toInt,
        AddressSize.truncate_signed]
  | sdata8 =>
      obtain rfl : 8 = width := by simpa [size?] using hw
      obtain rfl : order.bytes 8 value.toNat = bytes := by simpa [write?] using h
      refine ⟨value.toNat, rfl, ?_⟩
      rw [extended_signed rfl, signExtended_mod, capacity_eight, ← Word.toInt_toInt64,
        Word.ofInt_toInt, UInt64.toUInt64_toInt64]
  | sdata2 | sdata4 =>
      simp only [size?, Option.some.injEq] at hw
      subst hw
      obtain ⟨rfl, fits⟩ := bytes_of_signedField? h
      refine ⟨(size.signed value).toUInt64.toNat, rfl, ?_⟩
      rw [extended_signed rfl, signExtended_toUInt64 (by omega) fits,
        AddressSize.truncate_signed]

/-- What is read back agrees with what was written in the bits that an address has, whatever
follows it. -/
theorem read?_write? (h : format.write? order size value = some bytes) (rest : List UInt8) :
    ∃ raw, format.read? order size (bytes ++ rest) = some (raw, bytes.length) ∧
      size.truncate raw = size.truncate value := by
  cases hw : format.size? size.bytes with
  | some width =>
      obtain ⟨n, rfl, agrees⟩ := extended_of_write? hw h
      exact ⟨format.extended width n, by
        rw [read?_bytes_append hw, ByteOrder.length_bytes], agrees⟩
  | none =>
      cases format with
      | absptr | signed | udata2 | sdata2 | udata4 | sdata4 | udata8 | sdata8 => simp [size?] at hw
      | uleb128 =>
          obtain rfl : Leb128.writeUnsigned value = bytes := by simpa [write?] using h
          exact ⟨value, Leb128.readUnsigned_writeUnsigned value rest, rfl⟩
      | sleb128 =>
          obtain rfl : Leb128.writeSigned (size.signed value) = bytes := by simpa [write?] using h
          refine ⟨(size.signed value).toUInt64, ?_, size.truncate_signed value⟩
          simp only [read?, size?, isSigned, if_true, Leb128.readSigned_writeSigned,
            Option.map_some]

/-- What is written is not empty. -/
theorem length_write?_pos (h : format.write? order size value = some bytes) :
    0 < bytes.length := by
  obtain ⟨raw, hr, -⟩ := read?_write? h []
  exact (size_of_read? hr).1

/-- A format of fixed size stores every value in that size. -/
theorem length_write? {width : Nat} (hw : format.size? size.bytes = some width)
    (h : format.write? order size value = some bytes) : bytes.length = width := by
  obtain ⟨n, rfl, -⟩ := extended_of_write? hw h
  exact ByteOrder.length_bytes order width n

theorem size?_eq_none_iff {addressSize : Nat} :
    format.size? addressSize = none ↔ format = .uleb128 ∨ format = .sleb128 := by
  cases format <;> simp [size?]

/-- A format without a fixed size stores every value, in at most ten bytes. -/
theorem write?_of_size?_none (order : ByteOrder) (hw : format.size? size.bytes = none)
    (value : UInt64) :
    ∃ bytes, format.write? order size value = some bytes ∧ bytes.length ≤ 10 := by
  cases format with
  | absptr | signed | udata2 | sdata2 | udata4 | sdata4 | udata8 | sdata8 => simp [size?] at hw
  | uleb128 => exact ⟨_, rfl, Leb128.length_writeUnsigned_le value⟩
  | sleb128 => exact ⟨_, rfl, Leb128.length_writeSigned_le _⟩

theorem length_of_size?_none (hw : format.size? size.bytes = none)
    (h : format.write? order size value = some bytes) : bytes.length ≤ 10 := by
  obtain ⟨written, hwritten, short⟩ := write?_of_size?_none order hw value
  rwa [Option.some.inj (h.symm.trans hwritten)]

end ValueFormat

/-! ## 3. Pointers -/

namespace PointerEncoding

variable {encoding : PointerEncoding} {order : ByteOrder} {site : Site} {address : UInt64}
  {bytes : List UInt8}

/-- Storing an address is finding its base and writing its distance from there. -/
theorem store_eq_ok_iff :
    encoding.store order site address = .ok bytes ↔
      ∃ base, site.base encoding.application = .ok base ∧
        encoding.format.write? order site.addressSize
          (site.addressSize.truncate (address - base)) = some bytes := by
  unfold store
  cases site.base encoding.application with
  | error fault => simp
  | ok base =>
      simp only [ValueFormat.store, Except.ok.injEq, exists_eq_left']
      cases encoding.format.write? order site.addressSize
          (site.addressSize.truncate (address - base)) <;> simp

/-- **What is stored resolves to the address it was stored for**, whatever follows it. -/
theorem resolve_store (h : encoding.store order site address = .ok bytes) (rest : List UInt8) :
    ∃ raw, encoding.resolve order site (bytes ++ rest)
      = .ok (⟨site.addressSize.truncate address, raw, encoding.indirect⟩, bytes.length) := by
  obtain ⟨base, hbase, hwrite⟩ := store_eq_ok_iff.mp h
  obtain ⟨raw, hread, agrees⟩ := ValueFormat.read?_write? hwrite rest
  rw [AddressSize.truncate_truncate] at agrees
  have sum : site.addressSize.truncate (base + raw) = site.addressSize.truncate address := by
    rw [AddressSize.truncate_add base agrees]
    congr 1
    rw [UInt64.add_comm, UInt64.sub_add_cancel]
  refine ⟨raw, ?_⟩
  simp only [resolve, hread, hbase, sum]

theorem length_store_pos (h : encoding.store order site address = .ok bytes) :
    0 < bytes.length := by
  obtain ⟨base, -, hwrite⟩ := store_eq_ok_iff.mp h
  exact ValueFormat.length_write?_pos hwrite

end PointerEncoding

end UnwindTables

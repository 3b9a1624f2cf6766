/-
UnwindTables.Proofs.Pointer.CanonicalTheorems — a pointer that was read is stored again as it was.

    resolve input = .ok (pointer, size) → storing pointer.address gives input.take size

for the fields of fixed size, and at most `size` bytes for numbers in groups of seven bits, which can be
padded. Many strings resolve to one address; `PointerEncoding.append_canonical` says which of them the writer
chooses.

## How the proof goes

What is stored is the value that was read, in the bits that an address has (`AddressSize.truncate_sub`). A
field of fixed size spells a number modulo its capacity, so where it has no more bits than an address, the
number that is written and the number that was read spell the same bytes
(`ValueFormat.eq_take_of_read?`). In groups of seven bits the writer takes as many bytes as the number needs
(`Leb128.length_ofNat_le_iff`, `Leb128.length_ofInt_le`), and cutting a number to an address makes it no
larger.
-/
import UnwindTables.Proofs.Bytes.Leb128ShortestTheorems
import UnwindTables.Proofs.Pointer.CompletenessTheorems

namespace UnwindTables

/-! ## 1. Fields of fixed size -/

theorem capacity_dvd {width size : Nat} (h : width ≤ size) : capacity width ∣ capacity size := by
  induction h with
  | refl => exact Nat.dvd_refl _
  | step _ ih => exact Nat.dvd_trans ih (Nat.dvd_mul_left _ _)

namespace ByteOrder

variable {order : ByteOrder} {width n : Nat} {input : List UInt8}

/-- A field spells a number modulo its capacity. -/
theorem bytes_mod (order : ByteOrder) (width n : Nat) :
    order.bytes width (n % capacity width) = order.bytes width n := by
  have h := bytes_value order (order.bytes width n)
  rwa [length_bytes, value_bytes] at h

/-- The bytes that a number was read from spell it. -/
theorem take_of_read? (h : order.read? width input = some n) : input.take width = order.bytes width n := by
  simp only [read?] at h
  split at h
  · next hlength =>
      obtain rfl := Option.some.inj h
      have hbytes := bytes_value order (input.take width)
      rw [hlength] at hbytes
      exact hbytes.symm
  · simp at h

end ByteOrder

namespace ValueFormat

variable {format : ValueFormat} {order : ByteOrder} {size : AddressSize} {raw : UInt64} {n width : Nat}
  {input bytes : List UInt8}

/-- Extending a number to a word keeps the bits that were in the field. -/
theorem toNat_extended_mod (hw : width ≤ 8) (format : ValueFormat) (n : Nat) :
    (format.extended width n).toNat % capacity width = n % capacity width := by
  have divides : capacity width ∣ 2 ^ 64 := capacity_dvd hw
  unfold extended
  split
  · rw [signExtended_mod, Word.toNat_ofInt]
    have hint : (((n : Int).bmod (capacity width) % 2 ^ 64).toNat : Int) % capacity width =
        (n : Int) % capacity width := by
      rw [Int.toNat_of_nonneg (Int.emod_nonneg _ (by norm_num)),
        Int.emod_emod_of_dvd _ (by exact_mod_cast divides), Int.bmod_emod]
    exact_mod_cast hint
  · rw [UInt64.toNat_ofNat', Nat.mod_mod_of_dvd _ divides, Nat.mod_mod]

/-- What a format of fixed size has read is the number that the first bytes spell. -/
theorem exists_extended_of_read? (hw : format.size? size.bytes = some width)
    (h : format.read? order size input = some (raw, n)) :
    n = width ∧ ∃ m, input.take width = order.bytes width m ∧ raw = format.extended width m := by
  rw [read?, hw] at h
  obtain ⟨m, hm, hraw⟩ := Option.map_eq_some_iff.mp h
  obtain ⟨rfl, rfl⟩ := Prod.mk.inj hraw
  refine ⟨rfl, m, ByteOrder.take_of_read? hm, ?_⟩
  rw [extended, Nat.mod_eq_of_lt (ByteOrder.lt_of_read? hm)]

theorem width_le (hw : format.size? size.bytes = some width) : width ≤ 8 := by
  cases format <;> cases size <;> simp_all [size?, AddressSize.bytes] <;> omega

/-- A field with no more bits than an address is written as it was read. -/
theorem eq_take_of_read? (hw : format.size? size.bytes = some width) (hfits : width ≤ size.bytes)
    (hread : format.read? order size input = some (raw, n))
    (hwrite : format.write? order size (size.truncate raw) = some bytes) : bytes = input.take n := by
  obtain ⟨rfl, m, hinput, rfl⟩ := exists_extended_of_read? hw hread
  obtain ⟨written, rfl, agrees⟩ := extended_of_write? hw hwrite
  rw [AddressSize.truncate_truncate, AddressSize.truncate_eq_iff] at agrees
  have hsame : written % capacity n = m % capacity n := by
    have h := congrArg (· % capacity n) agrees
    simp only [Nat.mod_mod_of_dvd _ (capacity_dvd hfits)] at h
    rwa [toNat_extended_mod (width_le hw), toNat_extended_mod (width_le hw)] at h
  rw [hinput, ← ByteOrder.bytes_mod, hsame, ByteOrder.bytes_mod]

/-! ## 2. Groups of seven bits -/

/-- A signed value cut to an address and read with its sign is no further from zero than it was. -/
theorem signed_within_bound (size : AddressSize) (value : Int64) {bound : Nat}
    (low : -(bound : Int) ≤ value.toInt) (high : value.toInt < bound) :
    -(bound : Int) ≤ (size.signed value.toUInt64).toInt ∧
      (size.signed value.toUInt64).toInt < bound := by
  have divides : (capacity size.bytes : Int) ∣ 2 ^ 64 := by
    cases size <;> decide
  have positive : 0 < capacity size.bytes := by
    cases size <;> decide
  have hsigned : (size.signed value.toUInt64).toInt = value.toInt.bmod (capacity size.bytes) := by
    rw [AddressSize.toInt_signed, Word.toNat_toUInt64, ← Int.emod_bmod, Int.emod_emod_of_dvd _ divides,
      Int.emod_bmod]
  rw [hsigned]
  exact Leb128.bmod_within_bound positive low high

/-- In groups of seven bits a value is written in no more bytes than it was read from. -/
theorem length_le_of_read? (hw : format.size? size.bytes = none)
    (hread : format.read? order size input = some (raw, n))
    (hwrite : format.write? order size (size.truncate raw) = some bytes) : bytes.length ≤ n := by
  cases format with
  | absptr | signed | udata2 | sdata2 | udata4 | sdata4 | udata8 | sdata8 => simp [size?] at hw
  | uleb128 =>
      have hread : Leb128.readUnsigned input = some (raw, n) := hread
      obtain rfl : Leb128.writeUnsigned (size.truncate raw) = bytes := Option.some.inj hwrite
      obtain ⟨k, rfl, hlt⟩ := Leb128.bounds_of_readUnsigned hread
      refine (Leb128.length_ofNat_le_iff k _).mpr ?_
      rw [AddressSize.toNat_truncate]
      exact (Nat.mod_le _ _).trans_lt hlt
  | sleb128 =>
      obtain ⟨⟨value, _⟩, hsigned, hraw⟩ := Option.map_eq_some_iff.mp hread
      obtain ⟨rfl, rfl⟩ := Prod.mk.inj hraw
      obtain rfl : Leb128.writeSigned (size.signed (size.truncate value.toUInt64)) = bytes :=
        Option.some.inj hwrite
      obtain ⟨k, rfl, low, high⟩ := Leb128.bounds_of_readSigned hsigned
      rw [AddressSize.signed_truncate]
      obtain ⟨hlow, hhigh⟩ := signed_within_bound size value low high
      exact Leb128.length_ofInt_le k _ hlow hhigh

end ValueFormat

/-! ## 3. Pointers -/

namespace PointerEncoding

variable {encoding : PointerEncoding} {order : ByteOrder} {site : Site} {input : List UInt8}
  {pointer : Pointer} {size : Nat}

/-- What is stored for a resolved pointer is the value that was read, in the bits that an address has. -/
theorem store_resolved (h : encoding.resolve order site input = .ok (pointer, size)) :
    ∃ bytes, encoding.store order site pointer.address = .ok bytes ∧
      encoding.format.read? order site.addressSize input = some (pointer.raw, size) ∧
      encoding.format.write? order site.addressSize (site.addressSize.truncate pointer.raw) =
        some bytes := by
  obtain ⟨raw, base, hread, hbase, rfl⟩ := resolve_eq_ok_iff.mp h
  obtain ⟨bytes, hwrite⟩ := ValueFormat.write?_of_read? hread
  have hvalue := AddressSize.truncate_sub
    (AddressSize.truncate_truncate site.addressSize (base + raw)).symm
  refine ⟨bytes, store_eq_ok_iff.mpr ⟨base, hbase, ?_⟩, hread, hwrite⟩
  rw [← hvalue]
  exact hwrite

/-- Where an address is a whole word, its distance from the base is the value that was stored. -/
theorem raw_eq_of_address_eq {other : List UInt8} {again : Pointer} {length : Nat}
    (hsize : site.addressSize = .eight)
    (h : encoding.resolve order site input = .ok (pointer, size))
    (hagain : encoding.resolve order site other = .ok (again, length))
    (haddress : again.address = pointer.address) : again.raw = pointer.raw := by
  obtain ⟨raw, base, -, hbase, rfl⟩ := resolve_eq_ok_iff.mp h
  obtain ⟨raw', base', -, hbase', rfl⟩ := resolve_eq_ok_iff.mp hagain
  obtain rfl := Except.ok.inj (hbase.symm.trans hbase')
  rw [hsize] at haddress
  exact (UInt64.add_right_inj base).mp haddress

/-- What is stored for a pointer that was resolved from the first `size` bytes of an input. -/
structure Canonical (encoding : PointerEncoding) (order : ByteOrder) (site : Site) (input : List UInt8)
    (pointer : Pointer) (size : Nat) (bytes : List UInt8) : Prop where
  /-- It is put behind whatever the buffer holds. -/
  appended : ∀ buffer,
    (encoding.append order site pointer.address).runOn buffer = (.ok (), buffer ++ bytes)
  /-- A field of fixed size that has no more bytes than an address is stored as it was. -/
  fixed : ∀ width, encoding.format.size? site.addressSize.bytes = some width →
    width ≤ site.addressSize.bytes → bytes = input.take size
  /-- A field in groups of seven bits is stored in no more bytes than it had. -/
  shortened : encoding.format.size? site.addressSize.bytes = none → bytes.length ≤ size
  /-- It resolves to the same address, and where an address is a whole word it has the same value. -/
  resolved : ∀ rest, ∃ again, encoding.resolve order site (bytes ++ rest) = .ok (again, bytes.length) ∧
    again.address = pointer.address ∧ again.indirect = pointer.indirect ∧
    (site.addressSize = .eight → again.raw = pointer.raw)

/-- **Storing a resolved pointer is canonical**: it succeeds, and it gives back what was read or, where that
was padded, something shorter that means the same. -/
theorem append_canonical (h : encoding.resolve order site input = .ok (pointer, size)) :
    ∃ bytes, Canonical encoding order site input pointer size bytes := by
  obtain ⟨bytes, hstore, hread, hwrite⟩ := store_resolved h
  refine ⟨bytes, ?_, ?_, ?_, ?_⟩
  · intro buffer
    rw [runOn_append, hstore]
  · intro width hw hfits
    exact ValueFormat.eq_take_of_read? hw hfits hread hwrite
  · intro hw
    exact ValueFormat.length_le_of_read? hw hread hwrite
  · intro rest
    obtain ⟨raw, hagain⟩ := resolve_store hstore rest
    obtain ⟨value, base, -, -, rfl⟩ := resolve_eq_ok_iff.mp h
    have haddress := AddressSize.truncate_truncate site.addressSize (base + value)
    exact ⟨_, hagain, haddress, rfl, fun hsize => raw_eq_of_address_eq hsize h hagain haddress⟩

/-- A signed number that is padded to three bytes. -/
def paddedInput : List UInt8 := [0xf0, 0xff, 0x7f, 0xaa]

/-- The site that it leads sixteen bytes back from. -/
def paddedSite : Site := ⟨⟨0x1000, none, none, none⟩, 0x1008, none, .eight⟩

theorem append_canonical_padded :
    resolve ⟨.sleb128, .pcrel, true⟩ .little paddedSite paddedInput =
        .ok (⟨0xff8, 0xfffffffffffffff0, true⟩, 3) ∧
      ∃ bytes, Canonical ⟨.sleb128, .pcrel, true⟩ .little paddedSite paddedInput
        ⟨0xff8, 0xfffffffffffffff0, true⟩ 3 bytes := by
  have hresolve : resolve ⟨.sleb128, .pcrel, true⟩ .little paddedSite paddedInput =
      .ok (⟨0xff8, 0xfffffffffffffff0, true⟩, 3) := by decide +kernel
  exact ⟨hresolve, append_canonical hresolve⟩

end PointerEncoding

end UnwindTables

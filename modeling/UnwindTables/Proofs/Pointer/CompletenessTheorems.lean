/-
UnwindTables.Proofs.Pointer.CompletenessTheorems — an address can be stored exactly if some bytes
resolve to it.

    runOn (append encoding site address) buffer = (.ok (), after) ↔
      after is buffer with bytes behind it that resolve to the address, and such bytes exist

`PointerEncoding.resolve_store` is one half: what is stored resolves to its address. The other half
is that an encoding which refuses an address is right to do so, because no bytes resolve to it at
that site.

## How the proof goes

Bytes that resolve to an address hold a value that agrees with the distance from the base in the
bits that an address has (`AddressSize.truncate_sub`). Writing depends on no other bits
(`AddressSize.signed_truncate`), and a value that was read from a format fits it again
(`ValueFormat.write?_of_read?`): this is where the range checks of the narrow formats are met.

What a buffer holds afterwards is read off `PointerEncoding.runOn_append`: there is one place where
bytes are put, and it comes after everything that can fail.
-/
import UnwindTables.Proofs.Pointer.StoreTheorems

namespace UnwindTables

/-! ## 1. Numbers of some bytes -/

namespace ByteOrder

theorem littleValue_lt (bytes : List UInt8) : littleValue bytes < capacity bytes.length := by
  induction bytes with
  | nil => exact Nat.zero_lt_one
  | cons b bytes ih =>
      have := b.toNat_lt
      simp only [littleValue, List.length_cons, capacity]
      omega

/-- A number that is read from a field is one that the field can hold. -/
theorem lt_of_read? {order : ByteOrder} {width n : Nat} {input : List UInt8}
    (h : order.read? width input = some n) : n < capacity width := by
  simp only [read?] at h
  split at h
  · next hlength =>
      obtain rfl := Option.some.inj h
      cases order with
      | little => simpa [value, hlength] using littleValue_lt (input.take width)
      | big => simpa [value, hlength] using littleValue_lt (input.take width).reverse
  · simp at h

theorem littleBytes_littleValue (bytes : List UInt8) :
    littleBytes bytes.length (littleValue bytes) = bytes := by
  induction bytes with
  | nil => rfl
  | cons b bytes ih =>
      have hbyte := b.toNat_lt
      have hlow : UInt8.ofNat (b.toNat + 256 * littleValue bytes) = b := by
        apply UInt8.toNat_inj.mp
        rw [UInt8.toNat_ofNat']
        omega
      have hhigh : (b.toNat + 256 * littleValue bytes) / 256 = littleValue bytes := by omega
      rw [List.length_cons, littleValue, littleBytes, hlow, hhigh, ih]

/-- Some bytes are those that spell their number. -/
theorem bytes_value (order : ByteOrder) (bytes : List UInt8) :
    order.bytes bytes.length (order.value bytes) = bytes := by
  cases order with
  | little => exact littleBytes_littleValue bytes
  | big =>
      have h := littleBytes_littleValue bytes.reverse
      rw [List.length_reverse] at h
      rw [ByteOrder.bytes, value, h, List.reverse_reverse]

/-- An input that is long enough starts with a number. -/
theorem exists_bytes (order : ByteOrder) {width : Nat} {input : List UInt8}
    (h : width ≤ input.length) :
    ∃ n rest, n < capacity width ∧ input = order.bytes width n ++ rest := by
  have hlength : (input.take width).length = width := by
    rw [List.length_take]
    exact Nat.min_eq_left h
  have hread : order.read? width input = some (order.value (input.take width)) := if_pos hlength
  have hbytes := bytes_value order (input.take width)
  rw [hlength] at hbytes
  refine ⟨order.value (input.take width), input.drop width, lt_of_read? hread, ?_⟩
  rw [hbytes, List.take_append_drop]

end ByteOrder

/-! ## 2. The bits that an address has -/

namespace AddressSize

/-- The signed reading of a value depends on the bits of an address alone. -/
theorem signed_truncate (size : AddressSize) (value : UInt64) :
    size.signed (size.truncate value) = size.signed value := by
  apply Int64.toInt_inj.mp
  rw [toInt_signed, toInt_signed, toNat_truncate, Int.natCast_emod, Int.emod_bmod]

theorem truncate_of_lt {size : AddressSize} {value : UInt64}
    (h : value.toNat < capacity size.bytes) : size.truncate value = value := by
  apply UInt64.toNat_inj.mp
  rw [toNat_truncate, Nat.mod_eq_of_lt h]

/-- A value that leads from a base to an address agrees with the distance between them. -/
theorem truncate_sub {size : AddressSize} {raw base address : UInt64}
    (h : size.truncate (base + raw) = size.truncate address) :
    size.truncate raw = size.truncate (address - base) := by
  have hsum := truncate_add (-base) h
  have hraw : -base + (base + raw) = raw := by
    rw [← UInt64.add_assoc, UInt64.add_left_neg, UInt64.zero_add]
  have hdistance : -base + address = address - base := by
    rw [UInt64.add_comm, ← UInt64.sub_eq_add_neg]
  rwa [hraw, hdistance] at hsum

/-- A signed field that is not wider than an address keeps its value when only the bits of an
address are kept. -/
theorem toInt_signed_signExtended {size : AddressSize} {width : Nat} (hw : width = 2 ∨ width = 4)
    (n : Nat) : (size.signed (signExtended width n)).toInt = (n : Int).bmod (capacity width) := by
  rw [toInt_signed, signExtended, Word.toNat_ofInt]
  have hbmod := Int.bmod_def (n : Int) (capacity width)
  rcases hw with rfl | rfl <;> cases size <;>
    simp only [capacity, bytes] at hbmod ⊢ <;>
    rw [Int.bmod_def] <;> omega

end AddressSize

/-! ## 3. Values that fit -/

namespace ValueFormat

variable {format : ValueFormat} {order : ByteOrder} {size : AddressSize} {raw : UInt64} {n : Nat}
  {input : List UInt8}

theorem exists_unsignedField? {width : Nat} {value : UInt64} (h : value.toNat < capacity width) :
    ∃ bytes, unsignedField? order width value = some bytes :=
  ⟨_, if_pos h⟩

theorem exists_signedField? {width : Nat} {value : Int64}
    (h : value.toInt.bmod (capacity width) = value.toInt) :
    ∃ bytes, signedField? order width value = some bytes :=
  ⟨_, if_pos h⟩

/-- A narrow unsigned format holds what was read from it. -/
theorem unsignedField?_of_read {width : Nat} (hw : width = 2 ∨ width = 4)
    (h : order.read? width input = some n) :
    ∃ bytes, unsignedField? order width (size.truncate (UInt64.ofNat n)) = some bytes := by
  have hn := ByteOrder.lt_of_read? h
  have hword : (UInt64.ofNat n).toNat = n := by
    rw [UInt64.toNat_ofNat']
    rcases hw with rfl | rfl <;> simp only [capacity] at hn <;> omega
  have hfits : (UInt64.ofNat n).toNat < capacity size.bytes := by
    rw [hword]
    rcases hw with rfl | rfl <;> cases size <;> simp only [capacity, AddressSize.bytes] at * <;>
      omega
  rw [AddressSize.truncate_of_lt hfits]
  exact exists_unsignedField? (by rwa [hword])

/-- A narrow signed format holds what was read from it. -/
theorem signedField?_of_read {width : Nat} (hw : width = 2 ∨ width = 4) (n : Nat) :
    ∃ bytes, signedField? order width (size.signed (size.truncate (signExtended width n))) =
      some bytes := by
  refine exists_signedField? ?_
  rw [AddressSize.signed_truncate, AddressSize.toInt_signed_signExtended hw, Int.bmod_bmod]

/-- A value that was read can be written in its format, if only in the bits that an address has. -/
theorem write?_of_read? (h : format.read? order size input = some (raw, n)) :
    ∃ bytes, format.write? order size (size.truncate raw) = some bytes := by
  cases format with
  | absptr | signed | udata8 | sdata8 | uleb128 | sleb128 => exact ⟨_, rfl⟩
  | udata2 | udata4 =>
      obtain ⟨m, hm, hraw⟩ := Option.map_eq_some_iff.mp h
      obtain ⟨rfl, -⟩ := Prod.mk.inj hraw
      exact unsignedField?_of_read (by decide) hm
  | sdata2 | sdata4 =>
      obtain ⟨m, hm, hraw⟩ := Option.map_eq_some_iff.mp h
      obtain ⟨rfl, -⟩ := Prod.mk.inj hraw
      exact signedField?_of_read (by decide) m

end ValueFormat

/-! ## 4. Pointers -/

namespace PointerEncoding

variable {encoding : PointerEncoding} {order : ByteOrder} {site : Site} {address : UInt64}

theorem resolve_eq_ok_iff {input : List UInt8} {pointer : Pointer} {size : Nat} :
    encoding.resolve order site input = .ok (pointer, size) ↔
      ∃ raw base, encoding.format.read? order site.addressSize input = some (raw, size) ∧
        site.base encoding.application = .ok base ∧
        pointer = ⟨site.addressSize.truncate (base + raw), raw, encoding.indirect⟩ := by
  unfold resolve
  cases encoding.format.read? order site.addressSize input with
  | none => simp
  | some read =>
      cases site.base encoding.application with
      | error fault => simp
      | ok base =>
          obtain ⟨raw, n⟩ := read
          constructor
          · intro h
            obtain ⟨rfl, rfl⟩ := Prod.mk.inj (Except.ok.inj h)
            exact ⟨raw, base, rfl, rfl, rfl⟩
          · rintro ⟨_, _, hraw, hbase, rfl⟩
            obtain ⟨rfl, rfl⟩ := Prod.mk.inj (Option.some.inj hraw)
            obtain rfl := Except.ok.inj hbase
            rfl

/-- An address that some bytes resolve to can be stored. -/
theorem store_of_resolve {input : List UInt8} {pointer : Pointer} {size : Nat}
    (h : encoding.resolve order site input = .ok (pointer, size))
    (haddress : pointer.address = site.addressSize.truncate address) :
    ∃ bytes, encoding.store order site address = .ok bytes := by
  obtain ⟨raw, base, hread, hbase, rfl⟩ := resolve_eq_ok_iff.mp h
  obtain ⟨bytes, hwrite⟩ := ValueFormat.write?_of_read? hread
  rw [AddressSize.truncate_sub haddress] at hwrite
  exact ⟨bytes, store_eq_ok_iff.mpr ⟨base, hbase, hwrite⟩⟩

/-- An address can be stored exactly if some bytes resolve to it. -/
theorem store_ok_iff_resolvable :
    (∃ bytes, encoding.store order site address = .ok bytes) ↔
      ∃ input pointer size, encoding.resolve order site input = .ok (pointer, size) ∧
        pointer.address = site.addressSize.truncate address := by
  constructor
  · rintro ⟨bytes, hstore⟩
    obtain ⟨raw, hresolve⟩ := resolve_store hstore []
    exact ⟨_, _, _, hresolve, rfl⟩
  · rintro ⟨input, pointer, size, hresolve, haddress⟩
    exact store_of_resolve hresolve haddress

/-- What is put at the end of a buffer is what is stored, and nothing is put there in case of a
fault. -/
theorem runOn_append (encoding : PointerEncoding) (order : ByteOrder) (site : Site)
    (address : UInt64) (buffer : List UInt8) :
    (encoding.append order site address).runOn buffer =
      match encoding.store order site address with
      | .ok bytes => (.ok (), buffer ++ bytes)
      | .error fault => (.error fault, buffer) := by
  unfold append store
  cases site.base encoding.application with
  | error fault => rfl
  | ok base =>
      simp only [ValueFormat.append, ValueFormat.store]
      cases encoding.format.write? order site.addressSize
        (site.addressSize.truncate (address - base)) <;> rfl

/-- **Storing a pointer inverts resolving it, and is complete.** An address is stored exactly if
some bytes resolve to it at the site. What is stored is put behind what the buffer holds, and
resolves to the address whatever follows it; in case of a fault the buffer stays as it is. -/
theorem append_inverts_resolve (encoding : PointerEncoding) (order : ByteOrder) (site : Site)
    (address : UInt64) (buffer : List UInt8) :
    (((encoding.append order site address).runOn buffer).1 = .ok () ↔
      ∃ input pointer size, encoding.resolve order site input = .ok (pointer, size) ∧
        pointer.address = site.addressSize.truncate address) ∧
    (∀ after, (encoding.append order site address).runOn buffer = (.ok (), after) →
      ∃ bytes, after = buffer ++ bytes ∧ ∀ rest, ∃ raw,
        encoding.resolve order site (bytes ++ rest) =
          .ok (⟨site.addressSize.truncate address, raw, encoding.indirect⟩, bytes.length)) ∧
    ∀ fault after, (encoding.append order site address).runOn buffer = (.error fault, after) →
      after = buffer := by
  rw [runOn_append, ← store_ok_iff_resolvable]
  cases hstore : encoding.store order site address with
  | ok bytes =>
      refine ⟨by simp, ?_, ?_⟩
      · intro after h
        obtain ⟨-, rfl⟩ := Prod.mk.inj h
        exact ⟨bytes, rfl, resolve_store hstore⟩
      · intro fault after h
        simp at h
  | error fault =>
      refine ⟨by simp, ?_, ?_⟩
      · intro after h
        simp at h
      · intro _ after h
        exact (Prod.mk.inj h).2.symm

end PointerEncoding

end UnwindTables

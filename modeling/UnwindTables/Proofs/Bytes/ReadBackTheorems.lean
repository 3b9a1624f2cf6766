/-
UnwindTables.Proofs.Bytes.ReadBackTheorems — a field that was written is read back from a window.

One lemma for each kind of field: a window that starts with the bytes of the field gives its value,
and leaves what follows them. A block is read back as a window of its own, which ends where the
block does whatever follows it.
-/
import UnwindTables.Bytes.Window
import UnwindTables.Proofs.Bytes.Leb128Theorems
import UnwindTables.Proofs.Pointer.StoreTheorems
import UnwindTables.Steps

namespace UnwindTables.Window

variable (rest : List UInt8) (offset : Nat)

theorem byte_cons (byte : UInt8) :
    (⟨byte :: rest, offset⟩ : Window).byte = .ok (byte, ⟨rest, offset + 1⟩) := rfl

theorem word_bytes (order : ByteOrder) {width n : Nat} (h : n < capacity width) :
    (⟨order.bytes width n ++ rest, offset⟩ : Window).word order width =
      .ok (n, ⟨rest, offset + width⟩) := by
  simp only [word, ByteOrder.read?_bytes_append, Nat.mod_eq_of_lt h]
  rw [drop, List.drop_left' (ByteOrder.length_bytes order width n)]

theorem unsigned_ofNat {n : Nat} (h : n < capacity 8) :
    (⟨Leb128.ofNat n ++ rest, offset⟩ : Window).unsigned =
      .ok (UInt64.ofNat n, ⟨rest, offset + (Leb128.ofNat n).length⟩) := by
  simp only [unsigned, Leb128.readUnsigned_ofNat h]
  rw [drop, List.drop_left' rfl]

theorem unsigned_writeUnsigned (value : UInt64) :
    (⟨Leb128.writeUnsigned value ++ rest, offset⟩ : Window).unsigned =
      .ok (value, ⟨rest, offset + (Leb128.writeUnsigned value).length⟩) := by
  simp only [unsigned, Leb128.readUnsigned_writeUnsigned]
  rw [drop, List.drop_left' rfl]

theorem signed_writeSigned (value : Int64) :
    (⟨Leb128.writeSigned value ++ rest, offset⟩ : Window).signed =
      .ok (value, ⟨rest, offset + (Leb128.writeSigned value).length⟩) := by
  simp only [signed, Leb128.readSigned_writeSigned]
  rw [drop, List.drop_left' rfl]

/-- A string without a NUL ends where it was ended. -/
theorem text_append {string : List UInt8} (h : 0 ∉ string) :
    (⟨string ++ 0 :: rest, offset⟩ : Window).text =
      .ok (string, ⟨rest, offset + (string.length + 1)⟩) := by
  have htake : (string ++ 0 :: rest).takeWhile (· != 0) = string := by
    rw [List.takeWhile_append_of_pos]
    · simp
    · intro byte hb
      have : byte ≠ 0 := fun hzero => h (hzero ▸ hb)
      simpa using this
  simp only [text, htake]
  rw [if_pos (by simp [size])]
  simp [drop, List.drop_append]

theorem split_append (content : List UInt8) :
    (⟨content ++ rest, offset⟩ : Window).split content.length =
      .ok (⟨content, offset⟩, ⟨rest, offset + content.length⟩) := by
  rw [split, if_pos (by simp [size])]
  simp [drop]

theorem block_ofNat {content : List UInt8} (h : content.length < capacity 8) :
    (⟨Leb128.ofNat content.length ++ content ++ rest, offset⟩ : Window).block =
      .ok (⟨content, offset + (Leb128.ofNat content.length).length⟩,
        ⟨rest, offset + (Leb128.ofNat content.length).length + content.length⟩) := by
  rw [List.append_assoc, block, unsigned_ofNat _ _ h]
  have hlength : (UInt64.ofNat content.length).toNat = content.length := by
    rw [UInt64.toNat_ofNat']
    exact Nat.mod_eq_of_lt (by simpa [capacity] using h)
  show (Window.split _ (UInt64.ofNat content.length).toNat) = _
  rw [hlength, split_append]

/-- A pointer that was stored at the offset of a window is read back from there. -/
theorem pointer_store {target : Target} {encoding : PointerEncoding} {function : Option UInt64}
    {address : UInt64} {stored : List UInt8}
    (h : encoding.store target.order (target.site offset function) address = .ok stored) :
    ∃ raw, (⟨stored ++ rest, offset⟩ : Window).pointer target encoding function =
      .ok (⟨target.addressSize.truncate address, raw, encoding.indirect⟩,
        ⟨rest, offset + stored.length⟩) := by
  obtain ⟨raw, hraw⟩ := PointerEncoding.resolve_store h rest
  refine ⟨raw, ?_⟩
  simp only [pointer, hraw]
  rw [drop, List.drop_left' rfl]
  rfl

end UnwindTables.Window

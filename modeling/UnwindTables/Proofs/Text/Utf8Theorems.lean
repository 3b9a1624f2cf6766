/-
UnwindTables.Proofs.Text.Utf8Theorems — text that was encoded is decoded as it was.

The decoder has to make something of any bytes. On the bytes of a text it makes the text: each byte
of a character leads to the next one, because the limits on second bytes only rule out what no
character is encoded as.
-/
import UnwindTables.Text.Utf8

namespace UnwindTables.Utf8

/-! ## 1. One byte -/

theorem toNat_byte {n : Nat} (h : n < 256) : (UInt8.ofNat n).toNat = n := by
  rw [UInt8.toNat_ofNat']
  exact Nat.mod_eq_of_lt h

/-! What a first byte says is checked for each of the 256 bytes. -/

theorem start_one {n : Nat} (h : n < 0x80) :
    start (UInt8.ofNat n) = ([Char.ofNat n], none) := by
  have all : ∀ n : Fin 256, n.val < 0x80 →
      start (UInt8.ofNat n) = ([Char.ofNat n], none) := by decide +kernel
  exact all ⟨n, by omega⟩ h

theorem start_two {n : Nat} (hlow : 0xc2 ≤ n) (hhigh : n < 0xe0) :
    start (UInt8.ofNat n) = ([], some ⟨1, 0x80, 0xbf, n - 0xc0⟩) := by
  have all : ∀ n : Fin 256, 0xc2 ≤ n.val → n.val < 0xe0 →
      start (UInt8.ofNat n) = ([], some ⟨1, 0x80, 0xbf, n - 0xc0⟩) := by decide +kernel
  exact all ⟨n, by omega⟩ hlow hhigh

theorem start_three {n : Nat} (hlow : 0xe0 ≤ n) (hhigh : n < 0xf0) :
    start (UInt8.ofNat n) = ([], some ⟨2, if n = 0xe0 then 0xa0 else 0x80,
      if n = 0xed then 0x9f else 0xbf, n - 0xe0⟩) := by
  have all : ∀ n : Fin 256, 0xe0 ≤ n.val → n.val < 0xf0 →
      start (UInt8.ofNat n) = ([], some ⟨2, if n.val = 0xe0 then 0xa0 else 0x80,
        if n.val = 0xed then 0x9f else 0xbf, n - 0xe0⟩) := by decide +kernel
  exact all ⟨n, by omega⟩ hlow hhigh

theorem start_four {n : Nat} (hlow : 0xf0 ≤ n) (hhigh : n < 0xf5) :
    start (UInt8.ofNat n) = ([], some ⟨3, if n = 0xf0 then 0x90 else 0x80,
      if n = 0xf4 then 0x8f else 0xbf, n - 0xf0⟩) := by
  have all : ∀ n : Fin 256, 0xf0 ≤ n.val → n.val < 0xf5 →
      start (UInt8.ofNat n) = ([], some ⟨3, if n.val = 0xf0 then 0x90 else 0x80,
        if n.val = 0xf4 then 0x8f else 0xbf, n - 0xf0⟩) := by decide +kernel
  exact all ⟨n, by omega⟩ hlow hhigh

variable {low high : UInt8} {bits n : Nat}

/-- The last byte of a character adds its six bits. -/
theorem decodeFrom_last (hlow : low.toNat ≤ n + 0x80) (hhigh : n + 0x80 ≤ high.toNat)
    (bytes : List UInt8) :
    decodeFrom (some ⟨1, low, high, bits⟩) (UInt8.ofNat (n + 0x80) :: bytes) =
      Char.ofNat (bits * 64 + n) :: decodeFrom none bytes := by
  have hmax := high.toNat_lt
  have hn := toNat_byte (n := n + 0x80) (by omega)
  simp only [decodeFrom, step, UInt8.le_iff_toNat_le, hn]
  rw [if_pos ⟨hlow, hhigh⟩, Nat.add_sub_cancel]
  rfl

/-- Any other byte adds them as well, and the next one may be any that continues a character. -/
theorem decodeFrom_more (hlow : low.toNat ≤ n + 0x80) (hhigh : n + 0x80 ≤ high.toNat)
    (missing : Nat) (bytes : List UInt8) :
    decodeFrom (some ⟨missing + 2, low, high, bits⟩) (UInt8.ofNat (n + 0x80) :: bytes) =
      decodeFrom (some ⟨missing + 1, 0x80, 0xbf, bits * 64 + n⟩) bytes := by
  have hmax := high.toNat_lt
  have hn := toNat_byte (n := n + 0x80) (by omega)
  simp only [decodeFrom, step, UInt8.le_iff_toNat_le, hn]
  rw [if_pos ⟨hlow, hhigh⟩, Nat.add_sub_cancel, if_neg (by omega)]
  rfl

/-! ## 2. One character -/

/-- The bytes of a character are decoded as it. -/
theorem decodeFrom_encode (c : Char) (bytes : List UInt8) :
    decodeFrom none (String.utf8EncodeChar c ++ bytes) = c :: decodeFrom none bytes := by
  have hback : Char.ofNat c.val.toNat = c := Char.ofNat_toNat c
  have hvalid : c.val.toNat < 0xd800 ∨ 0xdfff < c.val.toNat ∧ c.val.toNat < 0x110000 := c.valid
  have hcontinue : (0xbf : UInt8).toNat = 0xbf := rfl
  have hfirst (b : UInt8) (rest : List UInt8) :
      decodeFrom none (b :: rest) = (start b).1 ++ decodeFrom (start b).2 rest := rfl
  unfold String.utf8EncodeChar
  generalize c.val.toNat = v at hback hvalid
  simp only
  split
  · rw [List.singleton_append, hfirst, start_one (by omega), hback]
    rfl
  · split
    · rw [List.cons_append, hfirst, start_two (by omega) (by omega), List.nil_append,
        List.singleton_append, decodeFrom_last (by simp) (by omega),
        show (v / 64 % 32 + 0xc0 - 0xc0) * 64 + v % 64 = v by omega, hback]
    · split
      · have hsecond : (if v / 4096 % 16 + 0xe0 = 0xe0 then (0xa0 : UInt8) else 0x80).toNat ≤
              v / 64 % 64 + 0x80 ∧ v / 64 % 64 + 0x80 ≤
              (if v / 4096 % 16 + 0xe0 = 0xed then (0x9f : UInt8) else 0xbf).toNat := by
          constructor
          · split
            · show 0xa0 ≤ _
              omega
            · exact Nat.le_add_left _ _
          · split
            · show _ ≤ 0x9f
              omega
            · show _ ≤ 0xbf
              omega
        rw [List.cons_append, hfirst, start_three (by omega) (by omega), List.nil_append,
          List.cons_append, decodeFrom_more hsecond.1 hsecond.2, List.singleton_append,
          decodeFrom_last (by simp) (by omega),
          show ((v / 4096 % 16 + 0xe0 - 0xe0) * 64 + v / 64 % 64) * 64 + v % 64 = v by omega, hback]
      · have hsecond : (if v / 262144 % 8 + 0xf0 = 0xf0 then (0x90 : UInt8) else 0x80).toNat ≤
              v / 4096 % 64 + 0x80 ∧ v / 4096 % 64 + 0x80 ≤
              (if v / 262144 % 8 + 0xf0 = 0xf4 then (0x8f : UInt8) else 0xbf).toNat := by
          constructor
          · split
            · show 0x90 ≤ _
              omega
            · exact Nat.le_add_left _ _
          · split
            · show _ ≤ 0x8f
              omega
            · show _ ≤ 0xbf
              omega
        rw [List.cons_append, hfirst, start_four (by omega) (by omega), List.nil_append,
          List.cons_append, decodeFrom_more hsecond.1 hsecond.2, List.cons_append,
          decodeFrom_more (by simp) (by omega), List.singleton_append,
          decodeFrom_last (by simp) (by omega),
          show (((v / 262144 % 8 + 0xf0 - 0xf0) * 64 + v / 4096 % 64) * 64 + v / 64 % 64) * 64 +
            v % 64 = v by omega, hback]

/-! ## 3. Text -/

theorem decodeFrom_flatMap (characters : List Char) :
    decodeFrom none (characters.flatMap String.utf8EncodeChar) = characters := by
  induction characters with
  | nil => rfl
  | cons c characters ih => rw [List.flatMap_cons, decodeFrom_encode, ih]

/-- The bytes of a text are those of its characters. -/
theorem toUTF8_eq_flatMap (text : String) :
    text.toUTF8.data.toList = text.toList.flatMap String.utf8EncodeChar := by
  obtain ⟨characters, rfl⟩ := String.exists_eq_ofList text
  rw [String.toUTF8_eq_toByteArray, String.toByteArray_ofList, List.utf8Encode,
    List.toList_data_toByteArray, String.toList_ofList]

/-- **The bytes of a text are decoded as the text.** -/
theorem decodeLossy_toUTF8 (text : String) : decodeLossy text.toUTF8.data.toList = text := by
  rw [decodeLossy, toUTF8_eq_flatMap, decodeFrom_flatMap, String.ofList_toList]

end UnwindTables.Utf8

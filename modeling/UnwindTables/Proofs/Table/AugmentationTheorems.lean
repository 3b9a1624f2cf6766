/-
UnwindTables.Proofs.Table.AugmentationTheorems — what the CIEs of a table declare.

`Table.augmentation_of_cie` says it without the reader: which bytes of a record are the block of its
augmentation data, which of those are fields, which encodings the fields declare, and where the
instructions start. `Table.consistent_of_cie` says what the flags of a CIE have to do with its string,
with its encodings and with the diagnostics of the table.

## How the proofs go

A CIE was read from a record (`Table.exists_record_of_mem_cies`), and what it declares from the window
after its own fields (`Cie.reads_of_read`). `Declared.Reads` is the case split on what is there: no
string, no leading `z`, a block that does not fit, or one that does. The diagnostics of a table come in
where the reading of a block has failed (`Table.diagnostic_at_cie_iff`).
-/
import UnwindTables.Proofs.Augmentation.FlagTheorems
import UnwindTables.Proofs.Table.TwoPassTheorems

namespace UnwindTables

open AugmentationState (isField askedFields HasUnknown)

variable {target : Target} {declared : Declared} {window block left rest after : Window}
  {fields : List BlockField} {codes more : List UInt8} {ending : BlockEnding}

/-! ## 1. A block that fits -/

/-- What is read of a block whose string asks for the fields `asked`. -/
structure BlockReading (target : Target) (asked : List UInt8) (block : Window) (declared : Declared)
    (fields : List BlockField) (left : Window) : Prop where
  /-- The fields stand one after the other from the first byte of the block on. -/
  inOrder : FieldsAt target fields block left
  /-- They are those of the first characters. -/
  first : fields.map BlockField.code <+: asked
  /-- If a character comes after those, its field is not there. -/
  stopped : ∀ code, asked[fields.length]? = some code →
    ∀ (field : BlockField) (after : Window), field.code = code → ¬ field.At target left after
  /-- What is left is a part of the block. -/
  inside : left.Within block
  /-- The last `R` counts, unless its byte says that the encoding is omitted. -/
  fdeEncoding : declared.fdeEncoding = (lastByte? 'R'.toUInt8 fields).bind Declared.declaredByte
  /-- The last `L` counts, unless its byte says that the encoding is omitted. -/
  lsdaEncoding : declared.lsdaEncoding = (lastByte? 'L'.toUInt8 fields).bind Declared.declaredByte

/-- The characters that ask for fields are those of the fields, and the first ones of what is left to
follow. -/
theorem FieldsAt.takeWhile_codes (h : FieldsAt target fields block left) (more : List UInt8) :
    (fields.map BlockField.code ++ more).takeWhile AugmentationState.isField =
      fields.map BlockField.code ++ more.takeWhile AugmentationState.isField :=
  List.takeWhile_append_of_pos h.isField

/-- Nothing is read from a block but its fields. -/
theorem blockReading_of_endsReading {result : Declared × BlockEnding}
    (hfields : FieldsAt target fields block left)
    (hends : EndsReading target (fields.foldl BlockField.declare Declared.opened) left more result) :
    BlockReading target ((fields.map BlockField.code ++ more).takeWhile isField) block result.1 fields
      left := by
  rw [hfields.takeWhile_codes]
  obtain ⟨hfde, hlsda, -, -⟩ := hends.keeps
  refine ⟨hfields, List.prefix_append _ _, ?_, hfields.within, ?_, ?_⟩
  · intro code hcode field after hfield
    -- The character after those of the fields is the first one that is left to follow.
    rw [List.getElem?_append_right (by simp), List.length_map, Nat.sub_self, ← List.head?_eq_getElem?]
      at hcode
    rw [List.head?_takeWhile] at hcode
    exact hends.not_at (Option.filter_eq_some_iff.mp hcode).1 hfield
  · rw [hfde, hfields.fdeEncoding]
    cases lastByte? 'R'.toUInt8 fields <;> rfl
  · rw [hlsda, hfields.lsdaEncoding]
    cases lastByte? 'L'.toUInt8 fields <;> rfl

/-! ## 2. A CIE -/

namespace Declared

/-- If the block does not fit, everything is skipped. -/
theorem Reads.of_overrun (h : Reads target window codes (declared, ending, rest))
    (hz : codes.head? = some 'z'.toUInt8) {fault : Fault} (hfault : window.block = .error fault) :
    declared.fdeEncoding = none ∧ declared.lsdaEncoding = none ∧ rest = window.dropAll := by
  cases h with
  | absent => cases hz
  | refused codes hne => exact absurd (Option.some.inj hz) hne
  | overrun codes hblock => exact ⟨rfl, rfl, rfl⟩
  | block hblock hfields hends =>
      rw [hfault] at hblock
      cases hblock

/-- If it fits, it is read as fields. -/
theorem Reads.of_block (h : Reads target window codes (declared, ending, rest))
    (hz : codes.head? = some 'z'.toUInt8) (hfits : window.block = .ok (block, after)) :
    rest = after ∧ ∃ fields left, BlockReading target (askedFields codes) block declared fields left := by
  cases h with
  | absent => cases hz
  | refused codes hne => exact absurd (Option.some.inj hz) hne
  | overrun codes hblock =>
      rw [hfits] at hblock
      cases hblock
  | block hblock hfields hends =>
      rw [hfits] at hblock
      obtain ⟨rfl, rfl⟩ := Prod.mk.inj (Except.ok.inj hblock)
      exact ⟨rfl, _, _, blockReading_of_endsReading hfields hends⟩

end Declared

/-- What a CIE declares is what its string says together with the bytes after its fields. -/
theorem Cie.reads_of_read {record : Record} {cie : Cie} (h : Cie.read target record = .ok (cie, ending)) :
    ∃ window rest, cie.HeadIn record window ∧
      Declared.Reads target window cie.augmentation (cie.declared, ending, rest) ∧
      cie.offset = record.offset ∧ cie.instructions = ⟨rest.offset, record.stop⟩ := by
  obtain ⟨window, rest, hhead, hdeclared, hoffset, -, -, hinstructions⟩ := Cie.read_eq_ok_iff.mp h
  have hreads := Declared.reads target cie.augmentation window
  rw [hdeclared] at hreads
  exact ⟨window, rest, hhead, hreads, hoffset, hinstructions⟩

/-- The augmentation of a CIE as its string and the bytes of its record say it, where `window` is what
comes after the fields of the CIE. -/
structure Cie.AugmentedBy (target : Target) (record : Record) (window : Window) (cie : Cie) : Prop where
  /-- Without a leading `z` there is no block, and the instructions follow at once. -/
  plain : cie.augmentation.head? ≠ some 'z'.toUInt8 →
    cie.declared.fdeEncoding = none ∧ cie.declared.lsdaEncoding = none ∧
      cie.instructions = ⟨window.offset, record.stop⟩
  /-- After a length that is missing or too large for the record there is nothing. -/
  overrun : cie.augmentation.head? = some 'z'.toUInt8 →
    (∀ length start, window.unsigned = .ok (length, start) → start.size < length.toNat) →
    cie.declared.fdeEncoding = none ∧ cie.declared.lsdaEncoding = none ∧
      cie.instructions = ⟨record.stop, record.stop⟩
  /-- Otherwise as many bytes are the block, and the instructions follow it whatever it holds. -/
  block : cie.augmentation.head? = some 'z'.toUInt8 →
    ∀ length start, window.unsigned = .ok (length, start) → length.toNat ≤ start.size →
    cie.instructions = ⟨start.offset + length.toNat, record.stop⟩ ∧
      ∃ fields left, BlockReading target (askedFields cie.augmentation)
        ⟨start.bytes.take length.toNat, start.offset⟩ cie.declared fields left

theorem Cie.augmentedBy_of_read {record : Record} {cie : Cie} (hframed : record.Framed)
    (h : Cie.read target record = .ok (cie, ending)) :
    ∃ window, cie.HeadIn record window ∧ cie.AugmentedBy target record window := by
  obtain ⟨window, rest, hhead, hreads, -, hinstructions⟩ := Cie.reads_of_read h
  refine ⟨window, hhead, ?_, ?_, ?_⟩
  · intro hz
    obtain ⟨hnothing, -, rfl⟩ := hreads.of_not_z hz
    rw [hnothing]
    exact ⟨rfl, rfl, hinstructions⟩
  · intro hz hlong
    obtain ⟨fault, hfault⟩ := Window.block_eq_error_iff.mpr hlong
    obtain ⟨hfde, hlsda, rfl⟩ := hreads.of_overrun hz hfault
    have hstop : window.dropAll.offset = record.stop := hhead.stop.trans hframed.bodyStop
    exact ⟨hfde, hlsda, by rw [hinstructions, hstop]⟩
  · intro hz length start hlength hfits
    have hblock := Window.block_eq_ok_iff.mpr ⟨length, start, hlength, hfits, rfl, rfl⟩
    obtain ⟨rfl, hreading⟩ := hreads.of_block hz hblock
    exact ⟨hinstructions, hreading⟩

/-! ## 3. Tables -/

namespace Table

variable {image : Option Image} {bytes : List UInt8} {table : Table} {cie : Cie}

/-- **The augmentation of a CIE is what its string and its bytes say.** The string is followed as its
characters say, and of a block that fits the fields are read that it asks for: in order, from the first
byte on, as far as they are there, and none from outside of the block. -/
theorem augmentation_of_cie (h : parse target image bytes = .ok table) (hc : cie ∈ table.cies) :
    AugmentationState.Follows cie.augmentation ∧
      ∃ record ∈ (Framing.ofSection target.order bytes).records, record.kind = .cie ∧
        record.offset = cie.offset ∧ ∃ window, cie.HeadIn record window ∧
          cie.AugmentedBy target record window := by
  obtain ⟨record, hr, hkind, ending, hread⟩ := exists_record_of_mem_cies h hc
  obtain ⟨_, _, -, -, hoffset, -⟩ := Cie.reads_of_read hread
  refine ⟨AugmentationState.follows cie.augmentation, record, hr, hkind, hoffset.symm, ?_⟩
  exact Cie.augmentedBy_of_read (Framing.framed_of_mem hr) hread

/-- A CIE whose block holds two `L` fields with a `P` and an `R` between them, and two bytes for the unknown
`X`. -/
def unknownSection : List UInt8 := [
  28, 0, 0, 0, 0, 0, 0, 0, 1, 0x7a, 0x4c, 0x50, 0x52, 0x4c, 0x58, 0, 1, 0x78, 0x10, 10,
  0x1b, 0x9b, 0, 1, 0, 0, 0x1b, 0xff, 0xaa, 0xbb, 0, 0]

/-- The CIE as it is read. The last `L` takes the encoding back. -/
def unknownCie : Cie where
  offset := 0
  format := .dwarf32
  length := 28
  version := .one
  augmentation := ['z', 'L', 'P', 'R', 'L', 'X'].map Char.toUInt8
  codeAlignment := 1
  dataAlignment := -8
  returnAddressRegister := 16
  declared :=
    ⟨⟨true, true, true, true, true, false⟩, some 0x1b, none, some 0x9b, some ⟨0x1116, 0x100, true⟩⟩
  instructions := ⟨30, 32⟩

theorem parse_unknownSection :
    parse sectionTarget none unknownSection = .ok ⟨[unknownCie], [], []⟩ := by
  decide +kernel

theorem augmentation_of_unknownCie :
    parse sectionTarget none unknownSection = .ok ⟨[unknownCie], [], []⟩ ∧
      AugmentationState.Follows unknownCie.augmentation ∧
      ∃ record ∈ (Framing.ofSection sectionTarget.order unknownSection).records, record.kind = .cie ∧
        record.offset = unknownCie.offset ∧ ∃ window, unknownCie.HeadIn record window ∧
          unknownCie.AugmentedBy sectionTarget record window :=
  ⟨parse_unknownSection, augmentation_of_cie parse_unknownSection (List.mem_singleton_self _)⟩

end Table

/-! ## 4. Flags -/

/-- The flags of a CIE against its string, its encodings and the diagnostics of a table. -/
structure Cie.Consistent (table : Table) (cie : Cie) : Prop where
  /-- A leading `z` says that there is a block. -/
  data : cie.declared.features.data = true ↔ cie.augmentation.head? = some 'z'.toUInt8
  /-- A string that starts with anything else is malformed. -/
  malformed : cie.declared.features.malformed = true ↔
    cie.augmentation ≠ [] ∧ cie.augmentation.head? ≠ some 'z'.toUInt8
  /-- Then nothing is declared and no other flag is set. -/
  refused : cie.declared.features.malformed = true →
    cie.declared = .nothing { Features.none with malformed := true }
  /-- Without a string nothing is declared and no flag is set. -/
  absent : cie.augmentation = [] → cie.declared = .nothing .none
  fdeEncoding : ∀ byte, cie.declared.fdeEncoding = some byte →
    cie.declared.features.fdeEncoding = true ∧ cie.declared.features.data = true ∧
      byte ≠ PointerEncoding.omitted
  lsdaEncoding : ∀ byte, cie.declared.lsdaEncoding = some byte →
    cie.declared.features.lsda = true ∧ cie.declared.features.data = true ∧
      byte ≠ PointerEncoding.omitted
  personalityEncoding : ∀ byte, cie.declared.personalityEncoding = some byte →
    cie.declared.features.personality = true ∧ cie.declared.features.data = true ∧
      byte ≠ PointerEncoding.omitted ∧
      ∃ encoding, PointerEncoding.decode byte = .ok (some encoding)
  personality : ∀ pointer, cie.declared.personality = some pointer →
    cie.declared.features.personality = true ∧ cie.declared.features.data = true
  /-- Part of a block is skipped at an unknown character or at damage, which is reported. -/
  skipped : cie.declared.features.skipped = true ↔
    cie.declared.features.data = true ∧ (HasUnknown cie.augmentation ∨
      ∃ diagnostic ∈ table.diagnostics, diagnostic.offset = cie.offset)

namespace Table

variable {image : Option Image} {bytes : List UInt8} {table : Table} {cie : Cie} {record : Record}

/-- There is a diagnostic about a CIE of a table exactly if its block could not be read to the end. -/
theorem diagnostic_at_cie_iff (h : parse target image bytes = .ok table)
    (hr : record ∈ (Framing.ofSection target.order bytes).records) (hkind : record.kind = .cie)
    (hread : Cie.read target record = .ok (cie, ending)) :
    (∃ diagnostic ∈ table.diagnostics, diagnostic.offset = cie.offset) ↔
      ∃ fault, ending = .failed fault := by
  obtain ⟨_, _, -, -, hoffset, -⟩ := Cie.reads_of_read hread
  have hentry : (Entry.read target image table.cies record).fault? = ending.fault? := by
    simp [Entry.read, hkind, hread, Entry.fault?]
  constructor
  · rintro ⟨diagnostic, hd, hsame⟩
    rw [mem_diagnostics_iff_of_offset h hr (hsame.trans hoffset), hentry] at hd
    cases ending with
    | complete => cases hd
    | unknownCode code => cases hd
    | failed fault => exact ⟨fault, rfl⟩
  · rintro ⟨fault, rfl⟩
    refine ⟨⟨cie.offset, fault⟩, ?_, rfl⟩
    rw [mem_diagnostics_iff_of_offset h hr hoffset, hentry]
    rfl

/-- **The flags of a CIE agree with everything else.** They are set by what was met in the string, no
encoding is declared without its flag, and a block that was not read to its end was left at an unknown
character or at damage that the table reports. -/
theorem consistent_of_cie (h : parse target image bytes = .ok table) (hc : cie ∈ table.cies) :
    cie.Consistent table := by
  obtain ⟨record, hr, hkind, ending, hread⟩ := exists_record_of_mem_cies h hc
  obtain ⟨window, rest, -, hreads, -⟩ := Cie.reads_of_read hread
  have hdata := hreads.data
  have hconsistent : cie.declared.Consistent := hreads.consistent
  refine ⟨hdata, hreads.malformed, hreads.of_malformed, hreads.of_nil, ?_, ?_, ?_, ?_, ?_⟩
  · intro byte hbyte
    obtain ⟨hflag, hne⟩ := hconsistent.fdeEncoding byte hbyte
    exact ⟨hflag, hdata.mpr (hreads.head_of_some Declared.fdeEncoding (fun _ => rfl) hbyte), hne⟩
  · intro byte hbyte
    obtain ⟨hflag, hne⟩ := hconsistent.lsdaEncoding byte hbyte
    exact ⟨hflag, hdata.mpr (hreads.head_of_some Declared.lsdaEncoding (fun _ => rfl) hbyte), hne⟩
  · intro byte hbyte
    obtain ⟨hflag, encoding, hdecode⟩ := hconsistent.personalityEncoding byte hbyte
    exact ⟨hflag, hdata.mpr (hreads.head_of_some Declared.personalityEncoding (fun _ => rfl) hbyte),
      (PointerEncoding.indirect_of_decode hdecode).1, encoding, hdecode⟩
  · intro pointer hpointer
    exact ⟨hconsistent.personality pointer hpointer,
      hdata.mpr (hreads.head_of_some Declared.personality (fun _ => rfl) hpointer)⟩
  · rw [diagnostic_at_cie_iff h hr hkind hread, hdata]
    exact hreads.skipped_iff

theorem consistent_unknownCie :
    parse sectionTarget none unknownSection = .ok ⟨[unknownCie], [], []⟩ ∧
      unknownCie.Consistent ⟨[unknownCie], [], []⟩ :=
  ⟨parse_unknownSection, consistent_of_cie parse_unknownSection (List.mem_singleton_self _)⟩

end Table

end UnwindTables

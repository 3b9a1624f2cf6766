/-
UnwindTables.Proofs.Table.PersonalityTheorems — the personality routine of a CIE and its encoding.

A `P` field is the byte of an encoding and a pointer in that encoding, and the byte is declared before the
pointer is read. So the two come from different places: the routine from the last field that has a pointer,
and the encoding from the field at which the reading has ended, if nothing but its pointer is missing.
`Table.personality_of_cie` says which bytes these are, and that they go together unless the reading has
ended at such a field.
-/
import UnwindTables.Proofs.Pointer.CompletenessTheorems
import UnwindTables.Proofs.Table.AugmentationTheorems

namespace UnwindTables

variable {target : Target} {declared : Declared} {window block left rest : Window} {field : BlockField}
  {fields : List BlockField} {codes more : List UInt8} {ending : BlockEnding} {byte : UInt8}
  {pointer : Pointer}

/-! ## 1. The pointer of a field -/

/-- Every one of some fields is somewhere in their block. -/
theorem FieldsAt.exists_at (h : FieldsAt target fields block left) (hfield : field ∈ fields) :
    ∃ start next, start.Within block ∧ field.At target start next := by
  induction h with
  | nil window => cases hfield
  | @cons first fields window next rest hat _ ih =>
      rcases List.mem_cons.mp hfield with rfl | hfield
      · exact ⟨window, next, .refl window, hat⟩
      · obtain ⟨start, after, hwithin, hstart⟩ := ih hfield
        have hnext : next.Within window :=
          (Declared.fieldEnd_stays target _ _).1 _ hat.fieldEnd
        exact ⟨start, after, hwithin.trans hnext, hstart⟩

/-- A field with a pointer is a `P`. -/
theorem BlockField.At.code_of_pointer (h : field.At target window rest)
    (hpointer : field.pointer = some pointer) : field = ⟨'P'.toUInt8, field.byte, some pointer⟩ := by
  cases h with
  | lsdaEncoding byte bytes offset => cases hpointer
  | fdeEncoding byte bytes offset => cases hpointer
  | omitted bytes offset => cases hpointer
  | personality hdecode hresolve =>
      obtain rfl := Option.some.inj hpointer
      rfl

/-- The highest bit of the byte says whether the pointer is indirect. -/
theorem BlockField.At.indirect
    (h : (⟨'P'.toUInt8, byte, some pointer⟩ : BlockField).At target window rest) :
    pointer.indirect = (byte &&& PointerEncoding.indirectBit != 0) := by
  cases h with
  | personality hdecode hresolve =>
      obtain ⟨raw, base, -, -, rfl⟩ := PointerEncoding.resolve_eq_ok_iff.mp hresolve
      exact (PointerEncoding.indirect_of_decode hdecode).2

theorem exists_field_of_lastPointer? (h : lastPointer? fields = some (byte, pointer)) :
    ∃ field ∈ fields, field.byte = byte ∧ field.pointer = some pointer := by
  obtain ⟨field, hfield, hfound⟩ := List.exists_of_findSome?_eq_some h
  obtain ⟨found, hpointer, hpair⟩ := Option.map_eq_some_iff.mp hfound
  obtain ⟨rfl, rfl⟩ := Prod.mk.inj hpair
  exact ⟨field, List.mem_reverse.mp hfield, rfl, hpointer⟩

/-- The last pointer of a block is that of a `P` field in it. -/
theorem FieldsAt.lastPointer (h : FieldsAt target fields block left)
    (hlast : lastPointer? fields = some (byte, pointer)) :
    ∃ start next, start.Within block ∧
      (⟨'P'.toUInt8, byte, some pointer⟩ : BlockField).At target start next := by
  obtain ⟨field, hfield, rfl, hpointer⟩ := exists_field_of_lastPointer? hlast
  obtain ⟨start, next, hwithin, hat⟩ := h.exists_at hfield
  rw [hat.code_of_pointer hpointer] at hat
  exact ⟨start, next, hwithin, hat⟩

/-! ## 2. What a block says about the routine -/

/-- What a CIE says about its routine, where its string asks for the fields of a block and then for
`more`, of which nothing can be read from what is `left`. -/
structure PersonalityReading (target : Target) (codes : List UInt8) (block : Window)
    (declared : Declared) (fields : List BlockField) (more : List UInt8) (left : Window) : Prop where
  string : codes = 'z'.toUInt8 :: (fields.map BlockField.code ++ more)
  inOrder : FieldsAt target fields block left
  stopped : ∀ code, more.head? = some code →
    ∀ (field : BlockField) (after : Window), field.code = code → ¬ field.At target left after
  /-- The routine is the last pointer. -/
  personality : declared.personality = (lastPointer? fields).map Prod.snd
  /-- The encoding is that of the field at which the reading has ended for want of a pointer, and
  otherwise the one of the last pointer. -/
  personalityEncoding : declared.personalityEncoding =
    (halfByte? target more left).or ((lastPointer? fields).map Prod.fst)
  /-- The last pointer was resolved in its encoding from bytes of the block. -/
  resolved : ∀ byte pointer, lastPointer? fields = some (byte, pointer) →
    pointer.indirect = (byte &&& PointerEncoding.indirectBit != 0) ∧
      ∃ start next, start.Within block ∧
        (⟨'P'.toUInt8, byte, some pointer⟩ : BlockField).At target start next
  /-- The two are there together unless no pointer was read and one is missing. -/
  together : (declared.personalityEncoding.isSome ↔ declared.personality.isSome) ↔
    (halfByte? target more left = none ∨ (lastPointer? fields).isSome)
  /-- The encoding is that of the routine unless a pointer in another one is missing. -/
  paired : declared.personalityEncoding = (lastPointer? fields).map Prod.fst ↔
    ∀ byte, halfByte? target more left = some byte → (lastPointer? fields).map Prod.fst = some byte

/-- What a string says about a routine together with the window after the fields of its CIE. -/
inductive Declared.PersonalityFrom (target : Target) (window : Window) (codes : List UInt8)
    (declared : Declared) : Prop
  /-- Nothing, if there is no block, or none that fits. -/
  | unread : codes.head? ≠ some 'z'.toUInt8 ∨ (∃ fault, window.block = .error fault) →
      declared.personalityEncoding = none → declared.personality = none →
      PersonalityFrom target window codes declared
  /-- What the block says. -/
  | read {block rest left : Window} {fields : List BlockField} {more : List UInt8} :
      window.block = .ok (block, rest) →
      PersonalityReading target codes block declared fields more left →
      PersonalityFrom target window codes declared

theorem personalityReading_of_endsReading {result : Declared × BlockEnding}
    (hfields : FieldsAt target fields block left)
    (hends : EndsReading target (fields.foldl BlockField.declare Declared.opened) left more result) :
    PersonalityReading target ('z'.toUInt8 :: (fields.map BlockField.code ++ more)) block result.1 fields
      more left := by
  obtain ⟨-, -, hkept, hkeptEncoding⟩ := hends.keeps
  obtain ⟨hopenedEncoding, hopened⟩ := hfields.personality Declared.opened
  have hpersonality : result.1.personality = (lastPointer? fields).map Prod.snd := by
    rw [hkept, hopened]
    exact Option.or_none
  have hencoding : result.1.personalityEncoding =
      (halfByte? target more left).or ((lastPointer? fields).map Prod.fst) := by
    rw [hkeptEncoding, hopenedEncoding]
    exact congrArg _ Option.or_none
  refine ⟨rfl, hfields, fun _ hcode _ _ hfield => hends.not_at hcode hfield, hpersonality, hencoding,
    ?_, ?_, ?_⟩
  · intro byte pointer hlast
    obtain ⟨start, next, hwithin, hat⟩ := hfields.lastPointer hlast
    exact ⟨hat.indirect, start, next, hwithin, hat⟩
  · rw [hpersonality, hencoding]
    cases halfByte? target more left <;> cases lastPointer? fields <;> simp
  · rw [hencoding]
    cases halfByte? target more left <;> simp [eq_comm]

theorem Declared.Reads.personalityFrom
    (h : Declared.Reads target window codes (declared, ending, rest)) :
    declared.PersonalityFrom target window codes := by
  cases h with
  | absent => exact .unread (Or.inl (by simp)) rfl rfl
  | refused codes hz => exact .unread (Or.inl (by simpa using hz)) rfl rfl
  | overrun codes hblock => exact .unread (Or.inr ⟨_, hblock⟩) rfl rfl
  | block hblock hfields hends => exact .read hblock (personalityReading_of_endsReading hfields hends)

/-! ## 3. Tables -/

namespace Table

variable {image : Option Image} {bytes : List UInt8} {table : Table} {cie : Cie}

/-- **The routine of a CIE and its encoding.** They come from the block of the CIE: the routine from the
last field with a pointer, and the encoding from there as well, but for the field at which the reading has
ended. If that is a `P` whose byte stands for an encoding and whose pointer is missing, its byte is the
encoding. So there is an encoding without a routine if no other field has a pointer, and an encoding of
another field if that has another byte. -/
theorem personality_of_cie (h : parse target image bytes = .ok table) (hc : cie ∈ table.cies) :
    ∃ record ∈ (Framing.ofSection target.order bytes).records, record.kind = .cie ∧
      record.offset = cie.offset ∧ ∃ window, cie.HeadIn record window ∧
        cie.declared.PersonalityFrom target window cie.augmentation := by
  obtain ⟨record, hr, hkind, ending, hread⟩ := exists_record_of_mem_cies h hc
  obtain ⟨window, rest, hhead, hreads, hoffset, -⟩ := Cie.reads_of_read hread
  exact ⟨record, hr, hkind, hoffset.symm, window, hhead, hreads.personalityFrom⟩

/-- A CIE whose personality routine is relative to the start of the data, which is not known. -/
def baselessSection : List UInt8 := [
  20, 0, 0, 0, 0, 0, 0, 0, 1, 0x7a, 0x50, 0, 1, 0x78, 0x10, 5, 0x3b, 0x10, 0, 0, 0, 0, 0, 0]

/-- The CIE as it is read: it has the encoding of the routine and no routine. -/
def baselessCie : Cie where
  offset := 0
  format := .dwarf32
  length := 20
  version := .one
  augmentation := ['z'.toUInt8, 'P'.toUInt8]
  codeAlignment := 1
  dataAlignment := -8
  returnAddressRegister := 16
  declared := ⟨⟨true, true, false, false, true, false⟩, none, none, some 0x3b, none⟩
  instructions := ⟨21, 24⟩

/-- Its table. -/
def baselessTable : Table := ⟨[baselessCie], [], [⟨0, .missingBase .datarel⟩]⟩

theorem parse_baselessSection :
    parse sectionTarget none baselessSection = .ok baselessTable := by
  decide +kernel

theorem personality_of_baselessCie :
    parse sectionTarget none baselessSection = .ok baselessTable ∧
      ∃ record ∈ (Framing.ofSection sectionTarget.order baselessSection).records, record.kind = .cie ∧
        record.offset = baselessCie.offset ∧ ∃ window, baselessCie.HeadIn record window ∧
          baselessCie.declared.PersonalityFrom sectionTarget window baselessCie.augmentation :=
  ⟨parse_baselessSection, personality_of_cie parse_baselessSection (List.mem_singleton_self _)⟩

/-- A CIE is kept with the encoding of a routine that it does not have. -/
theorem encoding_without_routine :
    parse sectionTarget none baselessSection = .ok baselessTable ∧
      ∃ cie ∈ baselessTable.cies, cie.declared.personalityEncoding = some 0x3b ∧
        cie.declared.personality = none :=
  ⟨parse_baselessSection, baselessCie, List.mem_singleton_self _, rfl, rfl⟩

/-- With two `P` fields, the encoding of the second is left next to the routine of the first. -/
example :
    (parse sectionTarget none [
      24, 0, 0, 0, 0, 0, 0, 0, 1, 0x7a, 0x50, 0x50, 0, 1, 0x78, 0x10, 10, 0x1b, 0x10, 0, 0, 0, 0x3b,
      0x10, 0, 0, 0, 0]).map (·.cies.map Cie.declared) =
    .ok [⟨⟨true, true, false, false, true, false⟩, none, none, some 0x3b,
      some ⟨0x1022, 0x10, false⟩⟩] := by
  decide +kernel

end Table

end UnwindTables

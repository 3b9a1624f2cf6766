/-
UnwindTables.Proofs.Table.EncodingTheorems — the encoding that the addresses of a kept FDE were
read in.

A CIE whose augmentation string asks for an `R` field says with it how the addresses of its FDEs
are stored. `Table.encoding_of_fde` is the exact account: either the field was read from the block
of the CIE, and every kept FDE was decoded in the encoding that it says; or the reading of the block
failed before it, and every kept FDE was decoded as plain addresses, which the section never said.
The second case does occur (`Table.misread_section`): nothing stops an FDE whose CIE could not be
read to the end, and a body that is long enough for plain addresses is taken for them.

## How the proof goes

An FDE of a table comes from an FDE record and a CIE that was read before it (`Entry.mem_readAll`).
What the CIE declares was read from its record (`Cie.read_eq_ok_iff`), so the two cases are those of
`Declared.read_fdeEncoding`.
-/
import UnwindTables.Proofs.Table.AccountingTheorems

namespace UnwindTables

open AugmentationState (isField)
open Declared (ReadsFdeByte)

/-- The two addresses of an FDE are those at the start of a record's body, in an encoding. -/
def Fde.DecodedWith (target : Target) (encoding : PointerEncoding) (record : Record) (fde : Fde) :
    Prop :=
  ∃ pcBegin afterBegin pcRange afterRange,
    record.body.pointer target encoding none = .ok (pcBegin, afterBegin) ∧
      afterBegin.pointer target encoding.valueOnly none = .ok (pcRange, afterRange) ∧
      fde.pcBegin = pcBegin.address ∧ fde.pcRange = pcRange.address

/-- A byte that is read says how addresses are stored, and the byte for omitted ones that they are
stored as they are. -/
theorem Cie.pointerEncoding_of_declaredByte {cie : Cie} {byte : UInt8}
    (h : cie.declared.fdeEncoding = Declared.declaredByte byte) :
    cie.pointerEncoding = PointerEncoding.decodeOrPlain byte := by
  rw [Cie.pointerEncoding, h, Declared.declaredByte]
  by_cases homitted : byte = PointerEncoding.omitted
  · subst homitted
    rfl
  · simp [homitted]

/-! ## 1. Where an entry comes from -/

namespace Entry

variable {target : Target} {image : Option Image} {seen : List Cie} {record : Record}

theorem of_read_cie {c : Cie} {ending : BlockEnding}
    (h : read target image seen record = cie c ending) :
    record.kind = .cie ∧ Cie.read target record = .ok (c, ending) := by
  unfold read at h
  split at h
  · next hkind =>
      split at h
      · next hread =>
          obtain ⟨rfl, rfl⟩ := Entry.cie.inj h
          exact ⟨hkind, hread⟩
      · simp at h
  · split at h
    · simp at h
    · split at h <;> simp at h

theorem of_read_fde {f : Fde} {problem : Option Fault}
    (h : read target image seen record = fde f problem) :
    ∃ c ∈ seen, record.kind = .fde c.offset ∧
      Fde.read target image c record = .ok (f, problem) := by
  unfold read at h
  split at h
  · split at h <;> simp at h
  · next owner hkind =>
      split at h
      · simp at h
      · next c hfind =>
          split at h
          · next hread =>
              obtain ⟨rfl, rfl⟩ := Entry.fde.inj h
              have howner : c.offset = owner := by simpa using List.find?_some hfind
              exact ⟨c, List.mem_of_find?_eq_some hfind, howner ▸ hkind, hread⟩
          · simp at h

/-- An entry is what became of a record, knowing nothing but CIEs of other entries. -/
theorem mem_readAll {entry : Entry} {records : List Record}
    (h : entry ∈ readAll target image seen records) :
    ∃ record ∈ records, ∃ known, entry = read target image known record ∧
      ∀ c ∈ known, c ∈ seen ∨ ∃ ending, cie c ending ∈ readAll target image seen records := by
  induction records generalizing seen with
  | nil => simp [readAll] at h
  | cons first records ih =>
      rw [readAll] at h ⊢
      rcases List.mem_cons.mp h with rfl | h
      · exact ⟨first, List.mem_cons_self, seen, rfl, fun c hc => Or.inl hc⟩
      · obtain ⟨record, hr, known, he, hknown⟩ := ih h
        refine ⟨record, List.mem_cons_of_mem _ hr, known, he, ?_⟩
        intro c hc
        rcases hknown c hc with hseen | ⟨ending, hentry⟩
        · rcases List.mem_append.mp hseen with hfirst | hseen
          · refine Or.inr ?_
            cases hread : read target image seen first with
            | cie c' ending =>
                obtain rfl : c = c' := by simpa [hread, cie?] using hfirst
                exact ⟨ending, List.mem_cons_self⟩
            | fde f problem => simp [hread, cie?] at hfirst
            | dropped offset fault => simp [hread, cie?] at hfirst
          · exact Or.inl hseen
        · exact Or.inr ⟨ending, List.mem_cons_of_mem _ hentry⟩

end Entry

/-! ## 2. Tables -/

namespace Table

/-- Where an FDE of a table comes from: its CIE and what follows the fields of the CIE in its record,
and the encoding that the record of the FDE was decoded in. -/
structure FdeSource (target : Target) (records : List Record) (table : Table) (fde : Fde)
    (cie : Cie) (window : Window) (encoding : PointerEncoding) : Prop where
  owner : table.cieFor? fde = some cie
  head : ∃ record ∈ records, record.kind = .cie ∧ record.offset = cie.offset ∧
    cie.HeadIn record window
  decoded : ∃ record ∈ records, record.kind = .fde cie.offset ∧ record.offset = fde.offset ∧
    fde.DecodedWith target encoding record

theorem find?_key_eq {α : Type} {key : α → Nat} {items : List α}
    (h : (items.map key).Pairwise (· < ·)) {a : α} (ha : a ∈ items) :
    items.find? (fun b => key b == key a) = some a := by
  rw [← List.head?_filter, filter_key_eq h ha]
  rfl

/-- **How the addresses of an FDE were read.** If the augmentation string of its CIE is a `z`,
characters `P` and `L`, and then an `R`, the FDE was decoded in the encoding that the last `R` of
the block says; or no `R` was read because the reading of the block failed before it, which is
reported for the CIE, and the FDE was decoded as plain addresses. -/
theorem encoding_of_fde {target : Target} {image : Option Image} {bytes : List UInt8}
    {table : Table} (h : parse target image bytes = .ok table) {fde : Fde} (hf : fde ∈ table.fdes) :
    ∃ cie window encoding,
      table.FdeSource target (Framing.ofSection target.order bytes).records fde cie window
        encoding ∧
      ∀ fields more, cie.augmentation = 'z'.toUInt8 :: (fields ++ 'R'.toUInt8 :: more) →
        (∀ code ∈ fields, code = 'P'.toUInt8 ∨ code = 'L'.toUInt8) →
        (∃ byte, ReadsFdeByte target fields more window byte ∧
          PointerEncoding.decodeOrPlain byte = .ok encoding) ∨
        ((∀ byte, ¬ ReadsFdeByte target fields more window byte) ∧ encoding = .plain ∧
          cie.declared.features.skipped = true ∧
          ∃ diagnostic ∈ table.diagnostics, diagnostic.offset = cie.offset) := by
  rw [parse_eq] at h
  split at h
  · simp at h
  obtain rfl := Except.ok.inj h
  generalize hrecords : (Framing.ofSection target.order bytes).records = records at *
  have haccounts : List.Forall₂ Entry.Accounts records (Entry.readAll target image [] records) :=
    Entry.accounts_readAll target image [] records
  have hincrease : (records.map Record.offset).Pairwise (· < ·) :=
    hrecords ▸ Framing.offsets_increasing target.order bytes
  -- the FDE's record, and the CIE that it was read with
  obtain ⟨problem, hentry⟩ := mem_fdes.mp hf
  obtain ⟨record, hr, known, hread, hknown⟩ := Entry.mem_readAll hentry
  obtain ⟨cie, hcie, hkind, hfde⟩ := Entry.of_read_fde hread.symm
  obtain ⟨ending, hcieEntry⟩ := (hknown cie hcie).resolve_left List.not_mem_nil
  -- the CIE's record
  obtain ⟨cieRecord, hcr, _, hcieRead, -⟩ := Entry.mem_readAll hcieEntry
  obtain ⟨hcieKind, hcieRead⟩ := Entry.of_read_cie hcieRead.symm
  obtain ⟨window, rest, hhead, hdeclared, hoffset, -⟩ := Cie.read_eq_ok_iff.mp hcieRead
  obtain ⟨encoding, pcBegin, afterBegin, pcRange, afterRange, _, _, hencoding, hbegin, hrange, -, -,
    -, rfl⟩ := Fde.read_eq_ok hfde
  refine ⟨cie, window, encoding, ⟨?_, ?_, ?_⟩, ?_⟩
  · exact find?_key_eq (ciesIncrease_ofEntries (map_offset_eq haccounts ▸ hincrease))
      (mem_cies.mpr ⟨ending, hcieEntry⟩)
  · exact ⟨cieRecord, hcr, hcieKind, hoffset.symm, hhead⟩
  · exact ⟨record, hr, hkind, rfl, pcBegin, afterBegin, pcRange, afterRange, hbegin, hrange, rfl,
      rfl⟩
  · intro fields more haugmentation hfields
    have hfields' : ∀ code ∈ fields, isField code ∧ code ≠ 'R'.toUInt8 := by
      intro code hc
      rcases hfields code hc with rfl | rfl <;> decide
    rw [haugmentation] at hdeclared
    rcases Declared.read_fdeEncoding hfields' hdeclared with ⟨byte, hbyte, hfdeEncoding⟩ |
      ⟨hunread, hfdeEncoding, fault, rfl⟩
    · refine Or.inl ⟨byte, hbyte, ?_⟩
      exact Cie.pointerEncoding_of_declaredByte hfdeEncoding ▸ hencoding
    · rw [Cie.pointerEncoding, hfdeEncoding] at hencoding
      have hd : ⟨cie.offset, fault⟩ ∈
          (ofEntries (Entry.readAll target image [] records)).diagnostics :=
        mem_diagnostics.mpr ⟨_, hcieEntry, rfl, rfl⟩
      exact Or.inr ⟨hunread, (Except.ok.inj hencoding).symm, (Cie.reports_of_read hcieRead).1, _, hd,
        rfl⟩

/-! ## 3. An FDE in an encoding that nothing declared

The personality routine of this CIE has an encoding that stands for nothing, so its `R` field, which
says that addresses are relative and take four bytes, is never read. The FDE after it is long enough
for two plain addresses and is kept with the first sixteen bytes of its body as its code. -/

/-- How the sections that are written out byte by byte are stored and where they are loaded. -/
def sectionTarget : Target := ⟨.little, .eight, ⟨0x1000, none, none, none⟩⟩

/-- A CIE with an unknown personality encoding, and an FDE. -/
def misreadSection : List UInt8 := [
  0x10, 0, 0, 0, 0, 0, 0, 0, 1, 0x7a, 0x50, 0x52, 0, 1, 0x78, 0x10, 2, 0x0f, 0x1b, 0,
  0x18, 0, 0, 0, 0x18, 0, 0, 0, 0, 0x10, 0, 0, 0x10, 0, 0, 0, 0, 0, 0, 0, 0, 0, 0, 0, 0, 0, 0, 0]

/-- What is read of the CIE. Its features end at the personality routine. -/
def misreadCie : Cie where
  offset := 0
  format := .dwarf32
  length := 16
  version := .one
  augmentation := ['z'.toUInt8, 'P'.toUInt8, 'R'.toUInt8]
  codeAlignment := 1
  dataAlignment := -8
  returnAddressRegister := 16
  declared := ⟨⟨true, true, false, false, true, false⟩, none, none, none, none⟩
  instructions := ⟨19, 20⟩

/-- The FDE as it is read, in plain addresses. -/
def misreadFde : Fde where
  offset := 20
  format := .dwarf32
  length := 24
  cie := 0
  pcBegin := 0x1000001000
  pcRange := 0
  lsda := none
  augmentationData := ⟨45, 45⟩
  instructions := ⟨45, 48⟩

/-- Both, and the fault that was recovered from. -/
def misreadTable : Table := ⟨[misreadCie], [misreadFde], [⟨0, .unsupportedEncoding 0x0f⟩]⟩

/-- The records of the section. -/
def misreadRecords : List Record := [
  ⟨0, .dwarf32, 16, .cie, ⟨(misreadSection.drop 8).take 12, 8⟩⟩,
  ⟨20, .dwarf32, 24, .fde 0, ⟨misreadSection.drop 28, 28⟩⟩]

theorem records_misreadSection :
    (Framing.ofSection sectionTarget.order misreadSection).records = misreadRecords := by
  cbv

theorem parse_misreadSection : parse sectionTarget none misreadSection = .ok misreadTable := by
  cbv

theorem encoding_of_misreadFde :
    ∃ cie window encoding,
      misreadTable.FdeSource sectionTarget
        (Framing.ofSection sectionTarget.order misreadSection).records misreadFde cie window
        encoding ∧
      ∀ fields more, cie.augmentation = 'z'.toUInt8 :: (fields ++ 'R'.toUInt8 :: more) →
        (∀ code ∈ fields, code = 'P'.toUInt8 ∨ code = 'L'.toUInt8) →
        (∃ byte, ReadsFdeByte sectionTarget fields more window byte ∧
          PointerEncoding.decodeOrPlain byte = .ok encoding) ∨
        ((∀ byte, ¬ ReadsFdeByte sectionTarget fields more window byte) ∧ encoding = .plain ∧
          cie.declared.features.skipped = true ∧
          ∃ diagnostic ∈ misreadTable.diagnostics, diagnostic.offset = cie.offset) :=
  encoding_of_fde parse_misreadSection (List.mem_singleton_self _)

/-- An FDE is kept whose CIE asks for an `R` that was never read from its block. -/
theorem misread_section :
    parse sectionTarget none misreadSection = .ok misreadTable ∧ misreadFde ∈ misreadTable.fdes ∧
      misreadTable.cieFor? misreadFde = some misreadCie ∧
      misreadCie.augmentation = 'z'.toUInt8 :: (['P'.toUInt8] ++ 'R'.toUInt8 :: []) ∧
      ∀ record ∈ (Framing.ofSection sectionTarget.order misreadSection).records,
        record.kind = .cie → ∀ window byte, misreadCie.HeadIn record window →
        ¬ ReadsFdeByte sectionTarget ['P'.toUInt8] [] window byte := by
  refine ⟨parse_misreadSection, List.mem_singleton_self _, rfl, rfl, ?_⟩
  rw [records_misreadSection]
  intro record hr hkind window byte hhead hread
  have hrecord : record = ⟨0, .dwarf32, 16, .cie, ⟨(misreadSection.drop 8).take 12, 8⟩⟩ := by
    rcases List.mem_cons.mp hr with rfl | hr
    · rfl
    · obtain rfl := List.mem_singleton.mp hr
      simp at hkind
  have hwindow : window = ⟨[2, 0x0f, 0x1b, 0], 16⟩ := by
    refine hhead.unique ?_
    rw [hrecord]
    exact ⟨_, _, _, _, rfl, rfl, rfl, rfl, rfl⟩
  obtain ⟨block, afterBlock, after, _, _, hblock, hafter, -⟩ := hread
  have hblock' : window.block = .ok (⟨[0x0f, 0x1b], 17⟩, ⟨[0], 19⟩) := by
    rw [hwindow]
    rfl
  obtain ⟨rfl, -⟩ := Prod.mk.inj (Except.ok.inj (hblock'.symm.trans hblock))
  have hfails : Declared.fieldsEnd sectionTarget ['P'.toUInt8] ⟨[0x0f, 0x1b], 17⟩ =
      .error (.unsupportedEncoding 0x0f) := rfl
  rw [hfails] at hafter
  simp at hafter

end Table

end UnwindTables

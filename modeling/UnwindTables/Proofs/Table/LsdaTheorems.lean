/-
UnwindTables.Proofs.Table.LsdaTheorems — FDEs that store a zero for their language-specific data.

A stored zero says that a function has no such data, but it is looked at only after the pointer has been
resolved. So where the base of the encoding is not known, the pointer is at fault, and the table says so
although nothing is missing. `Table.fde_of_stored_zero` says that the FDE is kept without language-specific
data in any case, and that this is the only thing that is ever told about it.
-/
import UnwindTables.Proofs.Pointer.CompletenessTheorems
import UnwindTables.Proofs.Table.AugmentationTheorems
import UnwindTables.Proofs.Table.RelocationTheorems

namespace UnwindTables

variable {target : Target} {encoding : PointerEncoding} {image : Option Image} {cie : Cie}
  {record : Record} {block window rest : Window} {byte : UInt8} {function : UInt64}

/-! ## 1. Bases -/

/-- Whether pointers in an application are relative to an address that is not known. -/
def Bases.lacks (bases : Bases) : Application → Bool
  | .textrel => bases.text.isNone
  | .datarel => bases.data.isNone
  | _ => false

/-- Where a function is given, these are the only bases that can be missing. -/
theorem Target.base_of_lacks (offset : Nat) {application : Application}
    (h : target.bases.lacks application = true) :
    (target.site offset (some function)).base application = .error (.missingBase application) := by
  cases application with
  | textrel => simp [Site.base, Site.base.known, site, Option.isNone_iff_eq_none.mp h]
  | datarel => simp [Site.base, Site.base.known, site, Option.isNone_iff_eq_none.mp h]
  | _ => cases h

theorem Target.exists_base (offset : Nat) (function : UInt64) {application : Application}
    (happ : application ≠ .aligned) (h : target.bases.lacks application = false) :
    ∃ base, (target.site offset (some function)).base application = .ok base := by
  cases application with
  | absolute => exact ⟨0, rfl⟩
  | pcrel => exact ⟨target.fieldAddress offset, rfl⟩
  | textrel =>
      obtain ⟨base, hbase⟩ := Option.isSome_iff_exists.mp (Option.isNone_eq_false_iff.mp h)
      exact ⟨base, by simp [Site.base, Site.base.known, site, hbase]⟩
  | datarel =>
      obtain ⟨base, hbase⟩ := Option.isSome_iff_exists.mp (Option.isNone_eq_false_iff.mp h)
      exact ⟨base, by simp [Site.base, Site.base.known, site, hbase]⟩
  | funcrel => exact ⟨function, rfl⟩
  | aligned => exact absurd rfl happ

/-! ## 2. A stored zero -/

/-- The value at the start of a block is zero in the format of an encoding. -/
def Window.StoresZero (block : Window) (target : Target) (encoding : PointerEncoding) : Prop :=
  ∃ width, encoding.format.read? target.order target.addressSize block.bytes = some (0, width)

namespace Fde

/-- A stored zero is not even looked at where the base is not known. -/
theorem readLsda_of_lacks (hdecode : PointerEncoding.decode byte = .ok (some encoding))
    (hzero : block.StoresZero target encoding)
    (hlacks : target.bases.lacks encoding.application = true) :
    readLsda target byte function block = .error (.missingBase encoding.application) := by
  obtain ⟨width, hread⟩ := hzero
  have hresolve : encoding.resolve target.order (target.site block.offset (some function))
      block.bytes = .error (.missingBase encoding.application) := by
    simp only [PointerEncoding.resolve, Target.base_of_lacks block.offset hlacks]
    simp [Target.site, hread]
  simp [readLsda, hdecode, Window.pointer, hresolve, bind, Except.bind]

/-- Otherwise it says that there are no language-specific data. -/
theorem readLsda_of_base (hdecode : PointerEncoding.decode byte = .ok (some encoding))
    (hzero : block.StoresZero target encoding) (happ : encoding.application ≠ .aligned)
    (hknown : target.bases.lacks encoding.application = false) :
    readLsda target byte function block = .ok none := by
  obtain ⟨width, hread⟩ := hzero
  obtain ⟨base, hbase⟩ := Target.exists_base block.offset function happ hknown
  have hresolve := PointerEncoding.resolve_eq_ok_iff.mpr ⟨0, base, hread, hbase, rfl⟩
  simp [readLsda, hdecode, Window.pointer, hresolve, bind, Except.bind, pure, Except.pure]

/-- What is read of augmentation data that start with a zero. -/
theorem readExtra_of_zero {declared : Declared} (function : UInt64) (hdata : declared.features.data = true)
    (hblock : window.block = .ok (block, rest)) (hbyte : declared.lsdaEncoding = some byte)
    (hdecode : PointerEncoding.decode byte = .ok (some encoding))
    (happ : encoding.application ≠ .aligned) (hzero : block.StoresZero target encoding) :
    readExtra target declared function window = .ok (
      ⟨none,
        if target.bases.lacks encoding.application then some (.missingBase encoding.application)
        else none,
        ⟨block.offset, rest.offset⟩⟩, rest) := by
  cases hlacks : target.bases.lacks encoding.application with
  | true =>
      simp [readExtra, hdata, hblock, hbyte, readLsda_of_lacks hdecode hzero hlacks, Fault.withinBlock]
  | false => simp [readExtra, hdata, hblock, hbyte, readLsda_of_base hdecode hzero happ hlacks]

/-- The code that an FDE describes is where its fields say, and may start there; `window` is what comes
after these fields. -/
def HeadIn (target : Target) (image : Option Image) (cie : Cie) (record : Record)
    (start range : Pointer) (window : Window) : Prop :=
  ∃ encoding afterStart, cie.pointerEncoding = .ok encoding ∧
    record.body.pointer target encoding none = .ok (start, afterStart) ∧
    afterStart.pointer target encoding.valueOnly none = .ok (range, window) ∧
    validStart image start.address = true

end Fde

/-! ## 3. Tables -/

/-- A CIE with an encoding for language-specific data has a block. -/
theorem Cie.data_of_lsdaEncoding {ending : BlockEnding} (h : Cie.read target record = .ok (cie, ending))
    (hbyte : cie.declared.lsdaEncoding = some byte) : cie.declared.features.data = true := by
  obtain ⟨_, _, -, hreads, -⟩ := Cie.reads_of_read h
  exact hreads.data.mpr (hreads.head_of_some Declared.lsdaEncoding (fun _ => rfl) hbyte)

namespace Table

variable {bytes : List UInt8} {table : Table} {start range : Pointer}

/-- **A stored zero is no language-specific data.** The FDE is kept without any, and the only thing that is
told about it is that a base is missing, if the encoding is relative to one that is not known. -/
theorem fde_of_stored_zero (h : parse target image bytes = .ok table)
    (hr : record ∈ (Framing.ofSection target.order bytes).records) (hc : cie ∈ table.cies)
    (hkind : record.kind = .fde cie.offset) (hhead : Fde.HeadIn target image cie record start range window)
    (hblock : window.block = .ok (block, rest)) (hbyte : cie.declared.lsdaEncoding = some byte)
    (hdecode : PointerEncoding.decode byte = .ok (some encoding))
    (happ : encoding.application ≠ .aligned) (hzero : block.StoresZero target encoding) :
    (∃ fde ∈ table.fdes, fde.offset = record.offset ∧ fde.cie = cie.offset ∧
      fde.pcBegin = start.address ∧ fde.pcRange = range.address ∧ fde.lsda = none) ∧
    ∀ diagnostic, diagnostic.offset = record.offset →
      (diagnostic ∈ table.diagnostics ↔
        target.bases.lacks encoding.application = true ∧
          diagnostic.fault = .missingBase encoding.application) := by
  obtain ⟨_, -, -, _, hcie⟩ := exists_record_of_mem_cies h hc
  have hdata := Cie.data_of_lsdaEncoding hcie hbyte
  have hextra := Fde.readExtra_of_zero start.address hdata hblock hbyte hdecode happ hzero
  obtain ⟨codeEncoding, afterStart, hencoding, hstart, hrange, hvalid⟩ := hhead
  -- The fault, if there is one, is beside the FDE and costs it nothing.
  have hread := Fde.read_of_fields hencoding hstart hrange hvalid hextra
  have hfind := find?_key_eq (accounts_of_parse h).ciesIncrease hc
  refine ⟨⟨_, mem_fdes_of_read h hr hc hkind hread, rfl, rfl, rfl, rfl, rfl⟩, ?_⟩
  intro diagnostic hoffset
  rw [mem_diagnostics_iff_of_offset h hr hoffset]
  simp only [Entry.read, hkind, hfind, hread, Entry.fault?]
  cases target.bases.lacks encoding.application <;> simp [eq_comm]

/-- A section with one function. Its language-specific data would be relative to the start of the data, which
is not known, and it stores a zero for it. -/
def zeroSection : List UInt8 := [
  16, 0, 0, 0, 0, 0, 0, 0, 1, 0x7a, 0x4c, 0, 1, 0x78, 0x10, 1, 0x3b, 0, 0, 0,
  28, 0, 0, 0, 24, 0, 0, 0, 0, 0x20, 0, 0, 0, 0, 0, 0, 0x10, 0, 0, 0, 0, 0, 0, 0, 4, 0, 0, 0, 0, 0, 0, 0]

/-- Its CIE. -/
def zeroCie : Cie where
  offset := 0
  format := .dwarf32
  length := 16
  version := .one
  augmentation := ['z'.toUInt8, 'L'.toUInt8]
  codeAlignment := 1
  dataAlignment := -8
  returnAddressRegister := 16
  declared := ⟨⟨true, false, true, false, false, false⟩, none, some 0x3b, none, none⟩
  instructions := ⟨17, 20⟩

/-- Its FDE, which is kept without language-specific data. -/
def zeroFde : Fde where
  offset := 20
  format := .dwarf32
  length := 28
  cie := 0
  pcBegin := 0x2000
  pcRange := 0x10
  lsda := none
  augmentationData := ⟨45, 49⟩
  instructions := ⟨49, 52⟩

/-- Its table, where the missing base is reported at the FDE. -/
def zeroTable : Table := ⟨[zeroCie], [zeroFde], [⟨20, .missingBase .datarel⟩]⟩

/-- The record of the FDE. -/
def zeroRecord : Record := ⟨20, .dwarf32, 28, .fde 0, ⟨zeroSection.drop 28, 28⟩⟩

theorem parse_zeroSection : parse sectionTarget none zeroSection = .ok zeroTable := by
  decide +kernel

theorem mem_records_zeroSection :
    zeroRecord ∈ (Framing.ofSection sectionTarget.order zeroSection).records := by
  have hrecords : (Framing.ofSection sectionTarget.order zeroSection).records =
      [⟨0, .dwarf32, 16, .cie, ⟨(zeroSection.drop 8).take 12, 8⟩⟩, zeroRecord] := by decide +kernel
  simp [hrecords]

theorem headIn_zeroRecord :
    Fde.HeadIn sectionTarget none zeroCie zeroRecord ⟨0x2000, 0x2000, false⟩ ⟨0x10, 0x10, false⟩
      ⟨zeroSection.drop 44, 44⟩ :=
  ⟨.plain, ⟨zeroSection.drop 36, 36⟩, rfl, by decide +kernel, by decide +kernel, rfl⟩

theorem block_zeroRecord :
    (⟨zeroSection.drop 44, 44⟩ : Window).block = .ok (⟨[0, 0, 0, 0], 45⟩, ⟨[0, 0, 0], 49⟩) := by
  decide +kernel

theorem storesZero_zeroRecord :
    (⟨[0, 0, 0, 0], 45⟩ : Window).StoresZero sectionTarget ⟨.sdata4, .datarel, false⟩ :=
  ⟨4, by decide +kernel⟩

theorem fde_of_zeroRecord :
    zeroRecord.kind = .fde zeroCie.offset ∧
      (∃ fde ∈ zeroTable.fdes, fde.offset = zeroRecord.offset ∧ fde.cie = zeroCie.offset ∧
        fde.pcBegin = 0x2000 ∧ fde.pcRange = 0x10 ∧ fde.lsda = none) ∧
      ∀ diagnostic, diagnostic.offset = zeroRecord.offset →
        (diagnostic ∈ zeroTable.diagnostics ↔
          sectionTarget.bases.lacks .datarel = true ∧ diagnostic.fault = .missingBase .datarel) :=
  ⟨rfl, fde_of_stored_zero parse_zeroSection mem_records_zeroSection (List.mem_singleton_self _) rfl
    headIn_zeroRecord block_zeroRecord rfl rfl (by simp) storesZero_zeroRecord⟩

/-- An FDE that stores a zero is reported. -/
theorem reported_zero :
    parse sectionTarget none zeroSection = .ok zeroTable ∧
      zeroRecord ∈ (Framing.ofSection sectionTarget.order zeroSection).records ∧
      zeroRecord.kind = .fde zeroCie.offset ∧ zeroCie ∈ zeroTable.cies ∧
      Fde.HeadIn sectionTarget none zeroCie zeroRecord ⟨0x2000, 0x2000, false⟩ ⟨0x10, 0x10, false⟩
        ⟨zeroSection.drop 44, 44⟩ ∧
      (⟨zeroSection.drop 44, 44⟩ : Window).block = .ok (⟨[0, 0, 0, 0], 45⟩, ⟨[0, 0, 0], 49⟩) ∧
      zeroCie.declared.lsdaEncoding = some 0x3b ∧
      PointerEncoding.decode 0x3b = .ok (some ⟨.sdata4, .datarel, false⟩) ∧
      (⟨[0, 0, 0, 0], 45⟩ : Window).StoresZero sectionTarget ⟨.sdata4, .datarel, false⟩ ∧
      ∃ diagnostic ∈ zeroTable.diagnostics, diagnostic.offset = zeroRecord.offset :=
  ⟨parse_zeroSection, mem_records_zeroSection, rfl, List.mem_singleton_self _, headIn_zeroRecord,
    block_zeroRecord, rfl, rfl, storesZero_zeroRecord, ⟨20, .missingBase .datarel⟩,
    List.mem_singleton_self _, rfl⟩

end Table

end UnwindTables

/-
UnwindTables.Decoded — everything that the unwind section of a binary says.

* `DecodeOptions` — what is checked on the way.
* `Decoded` — the table of a binary, the bases it was read with, and the search table if it was
  checked.
* `Decoded.ofBinary` — the whole reading of a binary, or the reason it fails.
* `Binary.facts` — the facts that a binary states.

Checking the search table only adds diagnostics, and checking start addresses only leaves out FDEs
that start outside the image.
-/
import UnwindTables.Binary
import UnwindTables.Facts.Projection
import UnwindTables.SearchTable

namespace UnwindTables

/-- What is checked while a binary is read. -/
structure DecodeOptions where
  /-- Check the FDEs against the search table. -/
  searchTableCheck : Bool
  /-- Leave out the FDEs that start outside the image. -/
  imageCheck : Bool
deriving DecidableEq, Repr

/-- Check everything. -/
def DecodeOptions.checked : DecodeOptions := ⟨true, true⟩

/-- Why a binary could not be read. -/
inductive DecodeFault where
  /-- The framing of the section is damaged. -/
  | invalidEhFrame (fault : Fault)
  /-- The search table cannot be read. -/
  | invalidEhFrameHdr (fault : Fault)
  /-- The contents of a section cannot be read from the file. -/
  | unreadableSection (name : SectionName) (cause : String)
  /-- Addresses take neither four nor eight bytes. -/
  | unsupportedAddressSize (bytes : Nat)
deriving DecidableEq, Repr

namespace DecodeFault

/-- The text of a fault. -/
def message : DecodeFault → String
  | invalidEhFrame _ => "invalid .eh_frame section"
  | invalidEhFrameHdr _ => "invalid .eh_frame_hdr section"
  | unreadableSection name _ => s!"failed to read section `{name.name}`"
  | unsupportedAddressSize bytes => s!"unsupported address size {bytes}"

/-- The text of what is behind a fault. -/
def cause? : DecodeFault → Option String
  | invalidEhFrame fault | invalidEhFrameHdr fault => some fault.message
  | unreadableSection _ cause => some cause
  | unsupportedAddressSize _ => none

end DecodeFault

/-- Everything that the unwind section of a binary says. -/
structure Decoded where
  /-- The addresses that pointers are relative to. -/
  bases : Bases
  /-- The records of the section. -/
  table : Table
  /-- The search table, if there is one and it was checked. -/
  searchTable : Option SearchTable
deriving DecidableEq, Repr

namespace Decoded

/-- The same with the search table of the binary checked, and what is told about it. -/
def checkSearchTable (binary : Binary) (addressSize : AddressSize) (decoded : Decoded) :
    Except DecodeFault Decoded × Journal :=
  match binary.contents .ehFrameHdr with
  | .error cause => (.error (.unreadableSection .ehFrameHdr cause), [])
  | .ok none => (.ok decoded, [])
  | .ok (some bytes) =>
    match SearchTable.parse binary.order addressSize (decoded.bases.ehFrameHdr.getD 0) bytes with
    | .error fault => (.error (.invalidEhFrameHdr fault), [])
    | .ok searchTable =>
      let (table, mismatches) := searchTable.verify decoded.table decoded.bases.ehFrame
      (.ok { decoded with table, searchTable := some searchTable },
        searchTable.verifyNotes decoded.table decoded.bases.ehFrame ++
          [.searchTableChecked searchTable.entries.length mismatches])

/-- Everything that the unwind section of a binary says, or why it cannot be read, and what is told
about it. A binary without the section says nothing. -/
def ofBinary (binary : Binary) (options : DecodeOptions) : Except DecodeFault Decoded × Journal :=
  match AddressSize.ofBytes? binary.addressSize with
  | none => (.error (.unsupportedAddressSize binary.addressSize), [])
  | some addressSize =>
    match binary.contents .ehFrame with
    | .error cause => (.error (.unreadableSection .ehFrame cause), [])
    | .ok none => (.ok ⟨binary.bases, .empty, none⟩, [.sectionMissing])
    | .ok (some bytes) =>
      let image := if options.imageCheck then binary.image else none
      match Table.parseWithJournal ⟨binary.order, addressSize, binary.bases⟩ image bytes with
      | (.error fault, notes) => (.error (.invalidEhFrame fault), notes)
      | (.ok table, notes) =>
        let decoded := ⟨binary.bases, table, none⟩
        if options.searchTableCheck then
          let (checked, more) := checkSearchTable binary addressSize decoded
          (checked, notes ++ more)
        else
          (.ok decoded, notes)

/-- The facts that a binary states. -/
def facts (decoded : Decoded) : FactStore := decoded.table.project .empty

end Decoded

/-- The facts that a binary states, or why it cannot be read, and what is told about it. -/
def Binary.facts (binary : Binary) (options : DecodeOptions) :
    Except DecodeFault FactStore × Journal :=
  match Decoded.ofBinary binary options with
  | (result, notes) => (result.map Decoded.facts, notes)

end UnwindTables

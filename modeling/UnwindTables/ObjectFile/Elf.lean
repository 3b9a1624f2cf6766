/-
UnwindTables.ObjectFile.Elf — object files in the Executable and Linkable Format.

* `Elf.Header` — where the tables of sections and segments are; `Elf.readHeader`.
* `ObjectFile.ofElf` — the object file that some bytes hold, or why they hold none.

Fields that hold addresses, offsets and sizes take as many bytes as an address, so one description
of each table serves files of both classes.
-/
import UnwindTables.ObjectFile
import UnwindTables.Text.Utf8

namespace UnwindTables

/-- Why some bytes hold no object file. -/
inductive ElfFault where
  /-- There are too few bytes to tell. -/
  | noMagic
  /-- The bytes are of another kind. -/
  | unknownMagic
  /-- The header is cut off. -/
  | truncatedHeader
  /-- The table of sections is cut off. -/
  | truncatedSections
  /-- The table of segments is cut off. -/
  | truncatedSegments
deriving DecidableEq, Repr

/-- The text of a fault. -/
def ElfFault.message : ElfFault → String
  | noMagic => "Could not read file magic"
  | unknownMagic => "Unknown file magic"
  | truncatedHeader => "Invalid ELF header size or alignment"
  | truncatedSections => "Invalid ELF section header offset/size/alignment"
  | truncatedSegments => "Invalid ELF program header size or alignment"

namespace Elf

/-- The bytes of a file and how its numbers are stored. -/
structure Image where
  /-- The bytes. -/
  bytes : List UInt8
  /-- How many bytes an address takes. -/
  addressSize : AddressSize
  /-- The byte order of numbers. -/
  order : ByteOrder

/-- The number of `width` bytes at a file offset. -/
def Image.number? (image : Image) (offset width : Nat) : Option Nat :=
  image.order.read? width (image.bytes.drop offset)

/-- The number of the size of an address at a file offset. -/
def Image.word? (image : Image) (offset : Nat) : Option Nat :=
  image.number? offset image.addressSize.bytes

/-- Where a field is: `fixed` bytes of other fields come before it, and `words` fields of the size
of an address. -/
def Image.fieldOffset (image : Image) (fixed words : Nat) : Nat :=
  fixed + words * image.addressSize.bytes

/-- Where a table is and how large its entries are. -/
structure TablePlace where
  /-- The file offset of the first entry. -/
  offset : Nat
  /-- How many bytes an entry takes. -/
  entrySize : Nat
  /-- How many entries there are. -/
  count : Nat

/-- The file offsets of the entries of a table. -/
def TablePlace.offsets (place : TablePlace) : List Nat :=
  (List.range place.count).map fun index => place.offset + index * place.entrySize

/-- Where the tables of a file are. -/
structure Header where
  /-- The table of segments. -/
  segments : TablePlace
  /-- The table of sections. -/
  sections : TablePlace
  /-- The index of the section that holds the names of sections. -/
  names : Nat

/-- The bytes of a file, if it is one of this kind: four bytes of magic, then the class and the
byte order. -/
def readImage (bytes : List UInt8) : Except ElfFault Image :=
  match bytes with
  | 0x7f :: 0x45 :: 0x4c :: 0x46 :: size :: order :: _ =>
    if bytes.length < 16 then
      .error .noMagic
    else
      match size, order with
      | 1, 1 => .ok ⟨bytes, .four, .little⟩
      | 1, 2 => .ok ⟨bytes, .four, .big⟩
      | 2, 1 => .ok ⟨bytes, .eight, .little⟩
      | 2, 2 => .ok ⟨bytes, .eight, .big⟩
      | _, _ => .error .unknownMagic
  | _ => if bytes.length < 16 then .error .noMagic else .error .unknownMagic

/-- Where the tables of a file are. -/
def readHeader (image : Image) : Option Header := do
  let segments ← image.word? (image.fieldOffset 24 1)
  let sections ← image.word? (image.fieldOffset 24 2)
  let half := fun index => image.number? (image.fieldOffset 30 3 + 2 * index) 2
  return {
    segments := ⟨segments, ← half 0, ← half 1⟩
    sections := ⟨sections, ← half 2, ← half 3⟩
    names := ← half 4 }

/-- A section as it is listed in the table. -/
structure SectionHeader where
  /-- Where its name is among the names. -/
  name : Nat
  /-- What kind of section it is. -/
  kind : Nat
  /-- Its flags. -/
  flags : Nat
  /-- The address that it is loaded at. -/
  address : Nat
  /-- The file offset of its contents. -/
  offset : Nat
  /-- How many bytes it takes. -/
  size : Nat

/-- The kind of a section without contents in the file. -/
def noContents : Nat := 8

/-- The flag of a section whose contents are compressed. -/
def compressedFlag : Nat := 0x800

/-- The kind of a segment that is loaded. -/
def loadedKind : Nat := 1

/-- The section listed at a file offset. -/
def readSectionHeader (image : Image) (offset : Nat) : Option SectionHeader := do
  let word := fun index => image.word? (offset + image.fieldOffset 8 index)
  return {
    name := ← image.number? offset 4
    kind := ← image.number? (offset + 4) 4
    flags := ← word 0
    address := ← word 1
    offset := ← word 2
    size := ← word 3 }

/-- The bytes of a section, unless they are compressed or outside the file. -/
def SectionHeader.contents (header : SectionHeader) (image : Image) : Option (List UInt8) :=
  if header.kind = noContents then
    some []
  else if header.flags &&& compressedFlag ≠ 0 then
    none
  else
    let bytes := (image.bytes.drop header.offset).take header.size
    if bytes.length = header.size then some bytes else none

/-- The section that a header lists, with its name taken from the names. -/
def SectionHeader.toSection (header : SectionHeader) (image : Image) (names : List UInt8) :
    FileSection where
  name := Utf8.decodeLossy ((names.drop header.name).takeWhile (· != 0))
  address := UInt64.ofNat header.address
  contents := header.contents image

/-- The sections of a file. -/
def readSections (image : Image) (header : Header) : Option (List FileSection) := do
  let headers ← header.sections.offsets.mapM (readSectionHeader image)
  let names := (headers[header.names]?.bind (·.contents image)).getD []
  return (headers.drop 1).map (·.toSection image names)

/-- The segment listed at a file offset. Its flags come before its addresses where addresses are
wide, and after its sizes where they are not. -/
def readSegment (image : Image) (offset : Nat) : Option FileSegment := do
  let fixed := match image.addressSize with
    | .four => 4
    | .eight => 8
  let kind ← image.number? offset 4
  let address ← image.word? (offset + image.fieldOffset fixed 1)
  let size ← image.word? (offset + image.fieldOffset fixed 4)
  return ⟨kind == loadedKind, UInt64.ofNat address, UInt64.ofNat size⟩

/-- The segments of a file. -/
def readSegments (image : Image) (header : Header) : Option (List FileSegment) :=
  header.segments.offsets.mapM (readSegment image)

end Elf

/-- The object file that some bytes hold. -/
def ObjectFile.ofElf (bytes : List UInt8) : Except ElfFault ObjectFile := do
  let image ← Elf.readImage bytes
  let some header := Elf.readHeader image | throw .truncatedHeader
  let some sections := Elf.readSections image header | throw .truncatedSections
  let some segments := Elf.readSegments image header | throw .truncatedSegments
  return ⟨image.addressSize, image.order, sections, segments⟩

end UnwindTables

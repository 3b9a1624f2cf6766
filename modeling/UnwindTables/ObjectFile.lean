/-
UnwindTables.ObjectFile — object files.

* `ObjectFile` — the sections and the segments of a file.
* `ObjectFile.binary` — what has to be known about the file to read its unwind section.

A name may occur more than once; the first section that has it counts.
-/
import UnwindTables.Binary

namespace UnwindTables

/-- A section of an object file. -/
structure FileSection where
  /-- Its name. -/
  name : String
  /-- The address that it is loaded at. -/
  address : UInt64
  /-- Its contents, unless they cannot be read. -/
  contents : Option (List UInt8)
deriving DecidableEq, Repr

/-- A segment of an object file. -/
structure FileSegment where
  /-- Whether the segment is loaded. -/
  loaded : Bool
  /-- The address that it is loaded at. -/
  address : UInt64
  /-- How many bytes it takes in memory. -/
  size : UInt64
deriving DecidableEq, Repr

/-- The address after a segment, or the last address if there is none after it. -/
def FileSegment.stop (segment : FileSegment) : UInt64 :=
  if segment.address + segment.size < segment.address then 0xffffffffffffffff
  else segment.address + segment.size

/-- An object file. -/
structure ObjectFile where
  /-- How many bytes an address takes. -/
  addressSize : AddressSize
  /-- The byte order of numbers. -/
  order : ByteOrder
  /-- The sections, in the order of the file. -/
  sections : List FileSection
  /-- The segments, in the order of the file. -/
  segments : List FileSegment
deriving DecidableEq, Repr

namespace ObjectFile

/-- The first section with a name. -/
def section? (file : ObjectFile) (name : SectionName) : Option FileSection :=
  file.sections.find? fun fileSection => fileSection.name == name.name

/-- Why the contents of a section cannot be read. -/
def damagedContents : String := "Invalid compressed data size or offset"

/-- The contents of a section. -/
def contents (file : ObjectFile) (name : SectionName) : Except String (Option (List UInt8)) :=
  match file.section? name with
  | none => .ok none
  | some ⟨_, _, some bytes⟩ => .ok (some bytes)
  | some ⟨_, _, none⟩ => .error damagedContents

/-- The addresses from the lowest loaded one to the highest, if any segment is loaded. -/
def image (file : ObjectFile) : Option Image :=
  let loaded := file.segments.filter FileSegment.loaded
  match (loaded.map FileSegment.address).min?, (loaded.map FileSegment.stop).max? with
  | some start, some stop => some ⟨start, stop⟩
  | _, _ => none

/-- What has to be known about the file to read its unwind section. -/
def binary (file : ObjectFile) : Binary where
  contents := file.contents
  address := fun name => (file.section? name).map FileSection.address
  image := file.image
  addressSize := file.addressSize.bytes
  order := file.order

end ObjectFile

end UnwindTables

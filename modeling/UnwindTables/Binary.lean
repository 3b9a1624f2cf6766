/-
UnwindTables.Binary — what has to be known about a binary to read its unwind section.

* `Binary` — sections by name, the addresses that are loaded, and how numbers are stored. It does
  not say where they come from.
* `Binary.bases` — the addresses that pointers are relative to.
* `Binary.loadBase` — the lowest address that is loaded.
-/
import UnwindTables.Fde

namespace UnwindTables

/-- The names of the sections that matter. -/
inductive SectionName where
  /-- The section with the records. -/
  | ehFrame
  /-- Its search table. -/
  | ehFrameHdr
  /-- The code. -/
  | text
  /-- The table that addresses of data are relative to. -/
  | got
deriving DecidableEq, Repr

/-- The name of a section in a file. -/
def SectionName.name : SectionName → String
  | ehFrame => ".eh_frame"
  | ehFrameHdr => ".eh_frame_hdr"
  | text => ".text"
  | got => ".got"

/-- What has to be known about a binary. -/
structure Binary where
  /-- The contents of a section if there is one, or why they cannot be read. -/
  contents : SectionName → Except String (Option (List UInt8))
  /-- The address that a section is loaded at. -/
  address : SectionName → Option UInt64
  /-- The addresses that are loaded, if the binary says so. -/
  image : Option Image
  /-- How many bytes an address takes. -/
  addressSize : Nat
  /-- The byte order of numbers. -/
  order : ByteOrder

namespace Binary

/-- The addresses that pointers are relative to. -/
def bases (binary : Binary) : Bases where
  ehFrame := (binary.address .ehFrame).getD 0
  ehFrameHdr := binary.address .ehFrameHdr
  text := binary.address .text
  data := binary.address .got

/-- The lowest address that is loaded. -/
def loadBase (binary : Binary) : UInt64 := (binary.image.map Image.start).getD 0

end Binary

end UnwindTables

/-
UnwindTables.Cie — what many functions have in common.

* `Cie` — the fields of a CIE and what its augmentation declares.
* `Cie.read` — the CIE that a record holds.
* `Cie.pointerEncoding` — how the addresses of functions are stored in the FDEs that refer to it.
-/
import UnwindTables.Augmentation
import UnwindTables.Record
import UnwindTables.Text.Utf8

namespace UnwindTables

/-- A part of a section, given by its section offsets. -/
structure Span where
  /-- The offset of the first byte. -/
  start : Nat
  /-- The offset after the last byte. -/
  stop : Nat
deriving DecidableEq, Repr

/-- How many bytes a span has. -/
def Span.size (span : Span) : Nat := span.stop - span.start

/-- The version of a CIE. -/
inductive CieVersion where
  /-- The return address register takes a single byte. -/
  | one
  /-- The return address register is stored in groups of seven bits. -/
  | three
deriving DecidableEq, Repr

namespace CieVersion

/-- The number of a version. -/
def number : CieVersion → UInt8
  | one => 1
  | three => 3

/-- The version with a number. -/
def ofNumber? (number : UInt8) : Option CieVersion :=
  if number = 1 then some one else if number = 3 then some three else none

theorem ofNumber?_number (version : CieVersion) : ofNumber? version.number = some version := by
  cases version <;> rfl

end CieVersion

/-- What many functions have in common. -/
structure Cie where
  /-- The section offset of the record. -/
  offset : Nat
  /-- How its length is stored. -/
  format : RecordFormat
  /-- Its length. -/
  length : Nat
  /-- Its version. -/
  version : CieVersion
  /-- The bytes of the augmentation string. -/
  augmentation : List UInt8
  /-- The unit of distances in the code. -/
  codeAlignment : UInt64
  /-- The unit of distances on the stack. -/
  dataAlignment : Int64
  /-- The register that holds the return address. -/
  returnAddressRegister : UInt64
  /-- What the augmentation declares. -/
  declared : Declared
  /-- The instructions that every function starts with. -/
  instructions : Span
deriving DecidableEq, Repr

namespace Cie

/-- The augmentation string as text. -/
def augmentationText (cie : Cie) : String := Utf8.decodeLossy cie.augmentation

/-- How the addresses of functions are stored. Plain addresses stand in for an encoding that is not
declared. -/
def pointerEncoding (cie : Cie) : Except Fault PointerEncoding :=
  match cie.declared.fdeEncoding with
  | some byte => PointerEncoding.decodeOrPlain byte
  | none => .ok .plain

/-- The register number at the start of a window. -/
def readRegister (version : CieVersion) (window : Window) : Except Fault (UInt64 × Window) :=
  match version with
  | .one => do
    let (byte, rest) ← window.byte
    return (byte.toUInt64, rest)
  | .three => window.unsigned

/-- The CIE that a record holds, and why the reading of its augmentation ended. -/
def read (target : Target) (record : Record) : Except Fault (Cie × BlockEnding) := do
  let (number, rest) ← record.body.byte
  match CieVersion.ofNumber? number with
  | none => throw (.unsupportedCieVersion record.offset number)
  | some version =>
    let (augmentation, rest) ← rest.text
    let (codeAlignment, rest) ← rest.unsigned
    let (dataAlignment, rest) ← rest.signed
    let (returnAddressRegister, rest) ← readRegister version rest
    let (declared, ending, rest) := Declared.read target augmentation rest
    return (
      { offset := record.offset
        format := record.format
        length := record.length
        version
        augmentation
        codeAlignment
        dataAlignment
        returnAddressRegister
        declared
        instructions := ⟨rest.offset, record.stop⟩ },
      ending)

end Cie

end UnwindTables

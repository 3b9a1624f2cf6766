/-
UnwindTables.Fault — why something could not be read.

* `Fault` — the cause, with the section offsets and addresses it concerns; `Fault.message` is its
  text.
* `Fault.isFatal` — whether the cause concerns the section as a whole. Only damage to the framing
  of records does; everything else costs one record or one field at most.
* `Fault.withinRecord`, `Fault.withinBlock` — what running out of bytes means inside a record, or
  inside a block of augmentation data: their ends are not the end of the section.
* `Diagnostic` — a cause together with the record it was met in.
-/
import UnwindTables.Text.Hex
import UnwindTables.Pointer.Format

namespace UnwindTables

/-- How the framing of a section is damaged. -/
inductive Malformation where
  /-- The section ends inside a field. -/
  | unexpectedEnd
  /-- The length of a record runs past the end of the section. -/
  | lengthOverrun
  /-- A description refers to something before the start of the section. -/
  | ciePointerOutOfBounds
  /-- A string has no end. -/
  | unterminatedString
deriving DecidableEq, Repr

/-- The text of a malformation. -/
def Malformation.message : Malformation → String
  | .unexpectedEnd => "unexpected end of section"
  | .lengthOverrun => "record length runs past the end of the section"
  | .ciePointerOutOfBounds => "CIE pointer refers to before the start of the section"
  | .unterminatedString => "string is missing its NUL terminator"

/-- Why something could not be read. -/
inductive Fault where
  /-- The framing is damaged at a section offset. -/
  | malformed (offset : Nat) (reason : Malformation)
  /-- No CIE was read at the offset that an FDE refers to. -/
  | danglingReference (fde cie : Nat)
  /-- A byte is no pointer encoding, or names one that is not supported. -/
  | unsupportedEncoding (byte : UInt8)
  /-- A pointer is relative to an address that is not known. -/
  | missingBase (application : Application)
  /-- An FDE describes code at address zero or outside the image. -/
  | invalidStart (fde : Nat) (address : UInt64)
  /-- A CIE has a version other than 1 and 3. -/
  | unsupportedCieVersion (cie : Nat) (version : UInt8)
  /-- A search table has a version other than 1. -/
  | unsupportedHeaderVersion (version : UInt8)
  /-- Augmentation data ends inside a field. -/
  | invalidAugmentation (offset : Nat)
  /-- A record ends inside a field. -/
  | truncatedRecord (offset : Nat)
  /-- An encoded value has no end. -/
  | truncatedValue
  /-- An entry of the search table does not match an FDE. -/
  | staleSearchEntry (initialLocation fdeAddress : UInt64)
deriving DecidableEq, Repr

namespace Fault

/-- The text of a fault. -/
def message : Fault → String
  | malformed offset reason =>
    s!"malformed frame section at {Hex.literal offset}: {reason.message}"
  | danglingReference fde cie =>
    s!"FDE at {Hex.literal fde} refers to CIE at {Hex.literal cie} which does not exist"
  | unsupportedEncoding byte => s!"unsupported pointer encoding {Hex.byte byte}"
  | missingBase application => s!"no base address was provided for {application.name} pointers"
  | invalidStart fde address =>
    s!"FDE at {Hex.literal fde} has an invalid start address {Hex.literal address.toNat}"
  | unsupportedCieVersion cie version =>
    s!"CIE at {Hex.literal cie} has unsupported version {version.toNat}"
  | unsupportedHeaderVersion version => s!"unsupported .eh_frame_hdr version {version.toNat}"
  | invalidAugmentation offset =>
    s!"augmentation data at {Hex.literal offset} could not be decoded and was skipped"
  | truncatedRecord offset => s!"field at {Hex.literal offset} runs past the end of its record"
  | truncatedValue => "encoded value runs past the end of its input"
  | staleSearchEntry initialLocation fdeAddress =>
    s!".eh_frame_hdr entry for {Hex.literal initialLocation.toNat} does not match the FDE at " ++
      Hex.literal fdeAddress.toNat

/-- Whether the fault ends the reading of the whole section. -/
def isFatal : Fault → Bool
  | malformed .. => true
  | _ => false

/-- What a fault met inside a record means. The record's own length has been checked already, so
running out of bytes is the record's fault and not the section's. -/
def withinRecord : Fault → Fault
  | malformed offset _ => truncatedRecord offset
  | fault => fault

/-- What a fault met inside a block of augmentation data means. -/
def withinBlock : Fault → Fault
  | malformed offset _ => invalidAugmentation offset
  | fault => fault

@[simp] theorem isFatal_withinRecord (fault : Fault) : fault.withinRecord.isFatal = false := by
  cases fault <;> rfl

@[simp] theorem isFatal_withinBlock (fault : Fault) : fault.withinBlock.isFatal = false := by
  cases fault <;> rfl

end Fault

/-- A fault that was recovered from. -/
structure Diagnostic where
  /-- The section offset of the record it was met in. -/
  offset : Nat
  /-- What was met. -/
  fault : Fault
deriving DecidableEq, Repr

/-- The text of a diagnostic. -/
def Diagnostic.message (diagnostic : Diagnostic) : String :=
  s!"record at {Hex.literal diagnostic.offset}: {diagnostic.fault.message}"

end UnwindTables

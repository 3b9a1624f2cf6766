/-
UnwindTables.WriteFault — why something could not be written.

* `WriteFault` — the cause; `WriteFault.message` is its text.
-/
import UnwindTables.Fault

namespace UnwindTables

/-- Why something could not be written. -/
inductive WriteFault where
  /-- A value does not fit the format it is to be stored in. -/
  | valueOutOfRange (value : UInt64) (format : ValueFormat)
  /-- An encoding cannot be used where it is. -/
  | encoding (fault : Fault)
  /-- A register number does not fit the single byte that the version has for it. -/
  | registerOutOfRange (register : UInt64)
  /-- An FDE refers to a CIE that has not been written before it. -/
  | unknownCie
  /-- A record is longer than its length field can say. -/
  | recordTooLarge
  /-- An FDE is further from its CIE than the field between them can say. -/
  | cieTooFar (distance : Nat)
  /-- No size of a block's length field agrees with the block that is written after it. -/
  | unsettledLength
  /-- A section is longer than memory can be. -/
  | sectionTooLong
  /-- The padding of a record has cut off its length field. -/
  | lengthCutOff
deriving DecidableEq, Repr

/-- The text of a fault. -/
def WriteFault.message : WriteFault → String
  | valueOutOfRange value format =>
    s!"value {Hex.literal value.toNat} cannot be encoded as {format.name}"
  | encoding fault => fault.message
  | registerOutOfRange register =>
    s!"return address register {register.toNat} does not fit in a version 1 CIE"
  | unknownCie => "FDE refers to a CIE that has not been emitted"
  | recordTooLarge => "record is too large for a 32-bit length"
  | cieTooFar distance =>
    s!"FDE is {Hex.literal distance} bytes after its CIE, out of reach of a CIE pointer"
  | unsettledLength => "no size of the length field agrees with the block after it"
  | sectionTooLong => "capacity overflow"
  | lengthCutOff => "the length field of a record is out of range"

end UnwindTables

/-
UnwindTables.Blueprint.Emission — a section written from its blueprint.

* `CieBlueprint.write`, `FdeBlueprint.write` — the bytes of one record. Pointers may be relative to
  their own place, so a record depends on the section offset that it is written at.
* `writeBlock` — a block with its length in front. The length field has the size that its value
  takes, and the block may depend on where it starts; sizes are tried from one byte on, each time
  taking the size that the block before asked for, until size and block agree. They need not, and
  then there is a fault.
* `Emission` — the section and where its records are; `Blueprint.emit`.

The body of a record is written before its length, so faults inside it come first. Padding follows
the instructions: the section is resized to its length and the padding, and that sum is one of words.
If it starts over then the section is not filled up but cut, and what is lost is the end of the
record (`writeRecord`).
-/
import UnwindTables.Blueprint.Basic
import UnwindTables.Pointer.Store

namespace UnwindTables

/-- Memory has less than this many bytes. -/
def memoryLimit : Nat := 0x8000000000000000

/-- Some bytes cut or filled up with zeros to a length. -/
def resize (bytes : List UInt8) (length : Nat) : List UInt8 :=
  bytes.take length ++ List.replicate (length - bytes.length) 0

/-- The fault of a record whose padding cuts off its length field. A length of four bytes cannot hold
what the length is taken to be then; one of eight bytes has lost its place. -/
def RecordFormat.cutOff : RecordFormat → WriteFault
  | .dwarf32 => .recordTooLarge
  | .dwarf64 => .lengthCutOff

/-- A record at a section offset: its length, the given content and its padding. A length that the
length field cannot hold, or that stands for something else there, is refused, and so is a section
that memory cannot hold. -/
def writeRecord (order : ByteOrder) (format : RecordFormat) (offset : Nat) (content : List UInt8)
    (padding : UInt64) : Except WriteFault (List UInt8) :=
  let start := offset + format.lengthSize
  let stop := (UInt64.ofNat (start + content.length) + padding).toNat
  if memoryLimit ≤ start + content.length ∨ memoryLimit ≤ stop then
    .error .sectionTooLong
  else if stop < start then
    .error format.cutOff
  else if format.limit ≤ stop - start then
    .error .recordTooLarge
  else
    .ok (format.lengthField order (stop - start) ++ resize content (stop - start))

/-- A block with its length in front, where the length field is assumed to take `size` bytes and
at most `attempts` sizes are tried. `offset` is the section offset of the length field, and `block`
gives the block that starts at a section offset. -/
def settleBlock (offset : Nat) (block : Nat → Except WriteFault (List UInt8)) :
    (attempts size : Nat) → Except WriteFault (List UInt8)
  | 0, _ => .error .unsettledLength
  | attempts + 1, size => do
    let data ← block (offset + size)
    let lengthField := Leb128.ofNat data.length
    if lengthField.length = size then
      return lengthField ++ data
    else
      settleBlock offset block attempts lengthField.length

/-- How many sizes of a length field are tried. A length of 64 bits takes at most ten bytes, so the
next size after that many would be one that has been tried before. -/
def lengthAttempts : Nat := 10

/-- A block with its length in front. -/
def writeBlock (offset : Nat) (block : Nat → Except WriteFault (List UInt8)) :
    Except WriteFault (List UInt8) :=
  settleBlock offset block lengthAttempts 1

/-- The encoding that a byte stands for, where something is to be written in it. -/
def decodeForWriting (byte : UInt8) : Except WriteFault (Option PointerEncoding) :=
  (PointerEncoding.decode byte).mapError .encoding

namespace CieBlueprint

/-- The return address register. -/
def writeRegister (cie : CieBlueprint) : Except WriteFault (List UInt8) :=
  if cie.version = 1 then
    if cie.returnAddressRegister.toNat < 256 then
      .ok [cie.returnAddressRegister.toUInt8]
    else
      .error (.registerOutOfRange cie.returnAddressRegister)
  else
    .ok (Leb128.writeUnsigned cie.returnAddressRegister)

/-- The encoding and the address of the personality routine, at a section offset. -/
def writePersonality (target : Target) (cie : CieBlueprint) (offset : Nat) :
    Except WriteFault (List UInt8) := do
  let (byte, address) := cie.personality.getD (PointerEncoding.omitted, 0)
  match ← decodeForWriting byte with
  | none => return [byte]
  | some encoding =>
    return byte :: (← encoding.store target.order (target.site (offset + 1) none) address)

/-- The fields that the rest of an augmentation string asks for, at a section offset. The first
unknown character gets the data that is meant for it, and nothing follows. -/
def writeFields (target : Target) (cie : CieBlueprint) :
    List UInt8 → (offset : Nat) → Except WriteFault (List UInt8)
  | [], _ => .ok []
  | code :: codes, offset => do
    match (AugmentationState.fields.transition code).2 with
    | .readPersonality =>
      let field ← cie.writePersonality target offset
      return field ++ (← writeFields target cie codes (offset + field.length))
    | .readLsdaEncoding =>
      let byte := cie.lsdaEncoding.getD PointerEncoding.omitted
      return byte :: (← writeFields target cie codes (offset + 1))
    | .readFdeEncoding =>
      let byte := cie.fdeEncoding.getD PointerEncoding.plain.bits
      return byte :: (← writeFields target cie codes (offset + 1))
    | .readLength | .skipRest | .ignore => return cie.unknownData

/-- The block of augmentation data at a section offset, if the augmentation string asks for one. -/
def writeAugmentationData (target : Target) (cie : CieBlueprint) (offset : Nat) :
    Except WriteFault (List UInt8) :=
  match cie.codes with
  | [] => .ok []
  | code :: codes =>
    if (AugmentationState.start.transition code).2 = .readLength then
      writeBlock offset (cie.writeFields target codes)
    else
      .ok []

/-- The record from its id up to the augmentation data. -/
def writeHead (target : Target) (cie : CieBlueprint) : Except WriteFault (List UInt8) := do
  let register ← cie.writeRegister
  return target.order.bytes 4 0 ++ [cie.version] ++ cie.codes ++ [0] ++
    Leb128.writeUnsigned cie.codeAlignment ++ Leb128.writeSigned cie.dataAlignment ++ register

/-- The record at a section offset. -/
def write (target : Target) (cie : CieBlueprint) (offset : Nat) :
    Except WriteFault (List UInt8) := do
  let head ← cie.writeHead target
  let data ← cie.writeAugmentationData target (offset + cie.format.lengthSize + head.length)
  writeRecord target.order cie.format offset (head ++ data ++ cie.instructions) cie.padding

end CieBlueprint

namespace FdeBlueprint

/-- The distance from a section offset back to the CIE, which is at `cieOffset` if it has been
written already. -/
def distance (fde : FdeBlueprint) (cieOffset : Option Nat) (offset : Nat) :
    Except WriteFault Nat :=
  match fde.ciePointer, cieOffset with
  | some distance, _ => .ok distance.toNat
  | none, some cieOffset =>
    if offset - cieOffset < capacity 4 then .ok (offset - cieOffset)
    else .error (.cieTooFar (offset - cieOffset))
  | none, none => .error .unknownCie

/-- The content of the block of augmentation data at a section offset. A record without
language-specific data stores a value of zero. -/
def writeExtra (target : Target) (fde : FdeBlueprint) (layout : CieBlueprint.Layout)
    (offset : Nat) : Except WriteFault (List UInt8) :=
  match fde.augmentationData, layout.lsdaEncoding with
  | some data, _ => .ok data
  | none, none => .ok []
  | none, some byte => do
    match ← decodeForWriting byte with
    | none => return []
    | some encoding =>
      match fde.lsda with
      | some address =>
        encoding.store target.order (target.site offset (some fde.pcBegin)) address
      | none => encoding.format.store target.order target.addressSize 0

/-- The block of augmentation data at a section offset, if there is one. -/
def writeAugmentationData (target : Target) (fde : FdeBlueprint) (layout : CieBlueprint.Layout)
    (offset : Nat) : Except WriteFault (List UInt8) :=
  if layout.data then writeBlock offset (fde.writeExtra target layout) else .ok []

/-- The record at a section offset, with the CIE that goes with it and the offset of that CIE if it
has been written already. -/
def write (target : Target) (fde : FdeBlueprint) (cie : CieBlueprint) (cieOffset : Option Nat)
    (offset : Nat) : Except WriteFault (List UInt8) := do
  let fieldOffset := offset + fde.format.lengthSize
  let distance ← fde.distance cieOffset fieldOffset
  let layout := cie.layout
  let encoding := (← decodeForWriting layout.fdeEncoding).getD .plain
  let beginOffset := fieldOffset + 4
  let pcBegin ← encoding.store target.order (target.site beginOffset none) fde.pcBegin
  let rangeOffset := beginOffset + pcBegin.length
  let pcRange ← encoding.valueOnly.store target.order (target.site rangeOffset none) fde.pcRange
  let data ← fde.writeAugmentationData target layout (rangeOffset + pcRange.length)
  writeRecord target.order fde.format offset
    (target.order.bytes 4 distance ++ pcBegin ++ pcRange ++ data ++ fde.instructions) fde.padding

end FdeBlueprint

/-- Where the code and the record of a function start. -/
structure FdePlace where
  /-- The address of the first instruction of the function. -/
  pcBegin : UInt64
  /-- The section offset of its FDE. -/
  offset : Nat
deriving DecidableEq, Repr

/-- A section that was written. -/
structure Emission where
  /-- The bytes of the section. -/
  bytes : List UInt8
  /-- The section offsets of its CIEs, in the order of the section. -/
  cies : List Nat
  /-- The places of its FDEs, in the order of the section. -/
  fdes : List FdePlace
deriving DecidableEq, Repr

namespace Blueprint

/-- The bytes and the places of some records that start at a section offset. `known` are all the CIEs
of the section, and `placed` are the offsets of those that have been written already. -/
def emitItems (target : Target) (known : List CieBlueprint) :
    List BlueprintItem → (placed : List Nat) → (offset : Nat) → Except WriteFault Emission
  | [], _, _ => .ok ⟨[], [], []⟩
  | .cie cie :: items, placed, offset => do
    let record ← cie.write target offset
    let rest ← emitItems target known items (placed ++ [offset]) (offset + record.length)
    return ⟨record ++ rest.bytes, offset :: rest.cies, rest.fdes⟩
  | .fde fde :: items, placed, offset =>
    match known[fde.cie]? with
    | none => .error .unknownCie
    | some cie => do
      let record ← fde.write target cie placed[fde.cie]? offset
      let rest ← emitItems target known items placed (offset + record.length)
      return ⟨record ++ rest.bytes, rest.cies, ⟨fde.pcBegin, offset⟩ :: rest.fdes⟩

/-- The section. -/
def emit (blueprint : Blueprint) (order : ByteOrder) : Except WriteFault Emission := do
  let emission ← emitItems (blueprint.target order) blueprint.cies blueprint.items [] 0
  let terminator := if blueprint.terminator then [0, 0, 0, 0] else []
  return { emission with bytes := emission.bytes ++ terminator }

/-- The bytes of the section. -/
def build (blueprint : Blueprint) (order : ByteOrder) : Except WriteFault (List UInt8) :=
  (blueprint.emit order).map Emission.bytes

end Blueprint

end UnwindTables

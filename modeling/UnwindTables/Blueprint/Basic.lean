/-
UnwindTables.Blueprint.Basic — what a section is to hold.

* `CieBlueprint`, `FdeBlueprint` — a record that is to be written, in terms of its meaning: the
  addresses that pointers are to stand for, and the length prefix left out.
* `Blueprint` — the records of a section in order, and whether a terminator follows them.
* `CieBlueprint.layout` — how the records that refer to a CIE will be read, which is how they have
  to be written.

A blueprint can ask for more than a reader accepts: any version, any augmentation string, a CIE
after the FDEs that need it.
-/
import UnwindTables.Augmentation
import UnwindTables.Record

namespace UnwindTables

/-- A CIE that is to be written. -/
structure CieBlueprint where
  /-- How its length is stored. -/
  format : RecordFormat
  /-- Its version number. -/
  version : UInt8
  /-- The bytes of the augmentation string, if it is not the one that the fields ask for. -/
  augmentation : Option (List UInt8)
  /-- The unit of distances in the code. -/
  codeAlignment : UInt64
  /-- The unit of distances on the stack. -/
  dataAlignment : Int64
  /-- The register that holds the return address. -/
  returnAddressRegister : UInt64
  /-- The encoding byte of the addresses of functions. -/
  fdeEncoding : Option UInt8
  /-- The encoding byte of pointers to language-specific data. -/
  lsdaEncoding : Option UInt8
  /-- The encoding byte of the personality routine and its address. -/
  personality : Option (UInt8 × UInt64)
  /-- The data of the first unknown character of the augmentation string. -/
  unknownData : List UInt8
  /-- The instructions that every function starts with. -/
  instructions : List UInt8
  /-- How many bytes without effect follow the instructions. -/
  padding : UInt64
deriving DecidableEq, Repr

namespace CieBlueprint

/-- The CIE of code with a return address on top of the stack, in register 16. -/
def standard : CieBlueprint where
  format := .dwarf32
  version := 1
  augmentation := none
  codeAlignment := 1
  dataAlignment := -8
  returnAddressRegister := 16
  fdeEncoding := some (PointerEncoding.bits ⟨.sdata4, .pcrel, false⟩)
  lsdaEncoding := none
  personality := none
  unknownData := []
  instructions := [0x0c, 0x07, 0x08, 0x90, 0x01]
  padding := 0

/-- The characters that ask for the fields that are set. -/
def fieldCodes (cie : CieBlueprint) : List UInt8 :=
  (if cie.personality.isSome then ['P'.toUInt8] else []) ++
    (if cie.lsdaEncoding.isSome then ['L'.toUInt8] else []) ++
    (if cie.fdeEncoding.isSome then ['R'.toUInt8] else [])

/-- The augmentation string: the one that is given, or else the one that asks for the fields that
are set. -/
def codes (cie : CieBlueprint) : List UInt8 :=
  match cie.augmentation with
  | some codes => codes
  | none => if cie.fieldCodes = [] then [] else 'z'.toUInt8 :: cie.fieldCodes

/-- How the records that refer to a CIE are stored. -/
structure Layout where
  /-- Whether they have a block of augmentation data. -/
  data : Bool
  /-- The encoding byte of the addresses of functions. -/
  fdeEncoding : UInt8
  /-- The encoding byte of pointers to language-specific data. -/
  lsdaEncoding : Option UInt8
deriving DecidableEq, Repr

/-- How the records that refer to the CIE will be read. An encoding counts if the augmentation
string asks for it, and plain addresses stand in for an omitted one. -/
def layout (cie : CieBlueprint) : Layout :=
  let actions := AugmentationState.start.actions cie.codes
  { data := actions.contains .readLength
    fdeEncoding :=
      if actions.contains .readFdeEncoding then
        (cie.fdeEncoding.bind Declared.declaredByte).getD PointerEncoding.plain.bits
      else
        PointerEncoding.plain.bits
    lsdaEncoding := if actions.contains .readLsdaEncoding then cie.lsdaEncoding else none }

end CieBlueprint

/-- An FDE that is to be written. -/
structure FdeBlueprint where
  /-- How its length is stored. -/
  format : RecordFormat
  /-- The number of the CIE that goes with it, counted from zero. -/
  cie : Nat
  /-- The address of the first instruction of the function. -/
  pcBegin : UInt64
  /-- How many bytes of code there are. -/
  pcRange : UInt64
  /-- The address of the language-specific data of the function. -/
  lsda : Option UInt64
  /-- The augmentation data, if it is not what the CIE asks for. -/
  augmentationData : Option (List UInt8)
  /-- The instructions that follow those of the CIE. -/
  instructions : List UInt8
  /-- How many bytes without effect follow the instructions. -/
  padding : UInt64
  /-- The distance that is stored to the CIE, if it is not the real one. -/
  ciePointer : Option UInt32
deriving DecidableEq, Repr

/-- An FDE with nothing but its code. -/
def FdeBlueprint.plain (cie : Nat) (pcBegin pcRange : UInt64) : FdeBlueprint where
  format := .dwarf32
  cie
  pcBegin
  pcRange
  lsda := none
  augmentationData := none
  instructions := []
  padding := 0
  ciePointer := none

/-- A record that is to be written. -/
inductive BlueprintItem where
  /-- A CIE. -/
  | cie (cie : CieBlueprint)
  /-- An FDE. -/
  | fde (fde : FdeBlueprint)
deriving DecidableEq, Repr

/-- The CIE of a record. -/
def BlueprintItem.cie? : BlueprintItem → Option CieBlueprint
  | cie c => some c
  | fde _ => none

/-- What a section is to hold. -/
structure Blueprint where
  /-- Where sections are loaded. -/
  bases : Bases
  /-- How many bytes an address takes. -/
  addressSize : AddressSize
  /-- The records, in the order of the section. -/
  items : List BlueprintItem
  /-- Whether a terminator follows them. -/
  terminator : Bool
deriving DecidableEq, Repr

namespace Blueprint

/-- A section without records. -/
def empty (bases : Bases) (addressSize : AddressSize) : Blueprint := ⟨bases, addressSize, [], true⟩

/-- The CIEs, in the order of the section. -/
def cies (blueprint : Blueprint) : List CieBlueprint :=
  blueprint.items.filterMap BlueprintItem.cie?

/-- The blueprint with a CIE after its records. The number of the CIE is how many there were. -/
def addCie (blueprint : Blueprint) (cie : CieBlueprint) : Blueprint :=
  { blueprint with items := blueprint.items ++ [.cie cie] }

/-- The blueprint with an FDE after its records. -/
def addFde (blueprint : Blueprint) (fde : FdeBlueprint) : Blueprint :=
  { blueprint with items := blueprint.items ++ [.fde fde] }

/-- The section as it will be stored and loaded. -/
def target (blueprint : Blueprint) (order : ByteOrder) : Target :=
  ⟨order, blueprint.addressSize, blueprint.bases⟩

end Blueprint

end UnwindTables

/-
UnwindTables.Fde — the description of one function.

* `Fde` — the addresses of a function's code and where its instructions are.
* `Fde.pcEnd`, `Fde.contains` — the code that a description covers.
* `Fde.read` — the FDE that a record holds, given the CIE that goes with it.
* `Image` — the addresses that descriptions may start at.

A pointer to language-specific data that cannot be read does not cost the description: the fault is
given beside it.
-/
import UnwindTables.Cie

namespace UnwindTables

/-- The addresses that are loaded, from `start` up to but without `stop`. -/
structure Image where
  /-- The first address. -/
  start : UInt64
  /-- The address after the last one. -/
  stop : UInt64
deriving DecidableEq, Repr

/-- Whether an address is loaded. -/
def Image.contains (image : Image) (address : UInt64) : Bool :=
  image.start ≤ address && address < image.stop

/-- The description of one function. -/
structure Fde where
  /-- The section offset of the record. -/
  offset : Nat
  /-- How its length is stored. -/
  format : RecordFormat
  /-- Its length. -/
  length : Nat
  /-- The section offset of the CIE that goes with it. -/
  cie : Nat
  /-- The address of the first instruction of the function. -/
  pcBegin : UInt64
  /-- How many bytes of code there are. -/
  pcRange : UInt64
  /-- The language-specific data of the function. -/
  lsda : Option Pointer
  /-- The block of augmentation data. -/
  augmentationData : Span
  /-- The instructions that follow those of the CIE. -/
  instructions : Span
deriving DecidableEq, Repr

namespace Fde

/-- The address after the code. -/
def pcEnd (fde : Fde) : UInt64 := fde.pcBegin + fde.pcRange

/-- Whether an address is between the start of the code and the address after it. -/
def contains (fde : Fde) (address : UInt64) : Bool :=
  fde.pcBegin ≤ address && address < fde.pcEnd

/-- Whether code may start at an address: never at zero, and only inside the image if there is
one. -/
def validStart (image : Option Image) (address : UInt64) : Bool :=
  address != 0 && image.all (·.contains address)

/-- The language-specific data in a block, stored in the encoding that `byte` stands for. A stored
value of zero says that there is none. -/
def readLsda (target : Target) (byte : UInt8) (function : UInt64) (block : Window) :
    Except Fault (Option Pointer) := do
  match ← PointerEncoding.decode byte with
  | none => return none
  | some encoding =>
    let (pointer, _) ← block.pointer target encoding (some function)
    return if pointer.raw = 0 then none else some pointer

/-- What the augmentation data of an FDE holds. -/
structure Extra where
  /-- The language-specific data of the function. -/
  lsda : Option Pointer
  /-- Why it could not be read. -/
  fault : Option Fault
  /-- The block of augmentation data. -/
  span : Span
deriving DecidableEq, Repr

/-- The augmentation data at the start of a window, as far as the CIE says that there is any, and
the window after it. -/
def readExtra (target : Target) (declared : Declared) (function : UInt64) (window : Window) :
    Except Fault (Extra × Window) :=
  if declared.features.data then
    match window.block with
    | .error _ => .error (.invalidAugmentation window.offset)
    | .ok (block, rest) =>
      let span := ⟨block.offset, rest.offset⟩
      match declared.lsdaEncoding with
      | none => .ok (⟨none, none, span⟩, rest)
      | some byte =>
        match readLsda target byte function block with
        | .ok lsda => .ok (⟨lsda, none, span⟩, rest)
        | .error fault => .ok (⟨none, some fault.withinBlock, span⟩, rest)
  else
    .ok (⟨none, none, ⟨window.offset, window.offset⟩⟩, window)

/-- The FDE that a record holds, and why its language-specific data could not be read. -/
def read (target : Target) (image : Option Image) (cie : Cie) (record : Record) :
    Except Fault (Fde × Option Fault) := do
  let encoding ← cie.pointerEncoding
  let (pcBegin, rest) ← record.body.pointer target encoding none
  let (pcRange, rest) ← rest.pointer target encoding.valueOnly none
  if validStart image pcBegin.address then
    let (extra, rest) ← readExtra target cie.declared pcBegin.address rest
    return (
      { offset := record.offset
        format := record.format
        length := record.length
        cie := cie.offset
        pcBegin := pcBegin.address
        pcRange := pcRange.address
        lsda := extra.lsda
        augmentationData := extra.span
        instructions := ⟨rest.offset, record.stop⟩ },
      extra.fault)
  else
    throw (.invalidStart record.offset pcBegin.address)

end Fde

end UnwindTables

/-
UnwindTables.Augmentation — what a CIE declares about the records that refer to it.

A CIE has an augmentation string. A leading `z` says that a block of data with its length in front
follows, and each character after it says which field of the block comes next.

* `AugmentationState.transition` — the action that a character asks for, and the state after it.
* `Declared` — what the fields of a block declare.
* `Declared.readBlock` — the fields that a string asks for, read from a block.
* `Declared.read` — the same with the length of the block, from the bytes after the CIE's own
  fields.

An unknown character ends the reading, because nothing says how long its field is; so does a field
that cannot be read. What was declared before that stays declared.
-/
import UnwindTables.Bytes.Window

namespace UnwindTables

/-- How far an augmentation string has been followed. -/
inductive AugmentationState where
  /-- No character has been seen. -/
  | start
  /-- After the leading `z`: characters ask for fields. -/
  | fields
  /-- After an unknown character: the rest of the block is skipped. -/
  | skipping
  /-- The string does not start with `z`, so nothing says where a block would end. -/
  | malformed
deriving DecidableEq, Repr

/-- What a character of an augmentation string asks for. -/
inductive AugmentationAction where
  /-- Read the length of the block. -/
  | readLength
  /-- Read the encoding of the personality routine, and the pointer to it. -/
  | readPersonality
  /-- Read the encoding of pointers to language-specific data. -/
  | readLsdaEncoding
  /-- Read the encoding of the addresses of functions. -/
  | readFdeEncoding
  /-- Skip what is left of the block. -/
  | skipRest
  /-- Read nothing. -/
  | ignore
deriving DecidableEq, Repr

/-- The state after a character and the action that the character asks for. -/
def AugmentationState.transition (state : AugmentationState) (code : UInt8) :
    AugmentationState × AugmentationAction :=
  match state with
  | .start => if code = 'z'.toUInt8 then (.fields, .readLength) else (.malformed, .ignore)
  | .fields =>
    if code = 'P'.toUInt8 then (.fields, .readPersonality)
    else if code = 'L'.toUInt8 then (.fields, .readLsdaEncoding)
    else if code = 'R'.toUInt8 then (.fields, .readFdeEncoding)
    else (.skipping, .skipRest)
  | .skipping => (.skipping, .ignore)
  | .malformed => (.malformed, .ignore)

/-- The state after each character of a string, with the action that the character asks for. -/
def AugmentationState.trace : AugmentationState → List UInt8 →
    List (AugmentationState × AugmentationAction)
  | _, [] => []
  | state, code :: codes => state.transition code :: trace (state.transition code).1 codes

/-- The actions that a string asks for. -/
def AugmentationState.actions (state : AugmentationState) (codes : List UInt8) :
    List AugmentationAction :=
  (state.trace codes).map Prod.snd

/-- The state after a whole string. -/
def AugmentationState.run (state : AugmentationState) (codes : List UInt8) : AugmentationState :=
  codes.foldl (fun state code => (state.transition code).1) state

/-- What was met in an augmentation string. -/
structure Features where
  /-- There is a block of data. -/
  data : Bool
  /-- A personality routine is declared. -/
  personality : Bool
  /-- An encoding of pointers to language-specific data is declared. -/
  lsda : Bool
  /-- An encoding of the addresses of functions is declared. -/
  fdeEncoding : Bool
  /-- Part of the block was skipped. -/
  skipped : Bool
  /-- The string does not start with `z`. -/
  malformed : Bool
deriving DecidableEq, Repr

namespace Features

/-- No features. -/
def none : Features := ⟨false, false, false, false, false, false⟩

/-- The features as bits of a number. -/
def bits (features : Features) : Nat :=
  features.data.toNat + 2 * features.personality.toNat + 4 * features.lsda.toNat +
    8 * features.fdeEncoding.toNat + 16 * features.skipped.toNat + 32 * features.malformed.toNat

end Features

/-- What a CIE declares. An encoding that is declared to be omitted is not declared. -/
structure Declared where
  /-- What was met in the string. -/
  features : Features
  /-- The encoding byte of the addresses of functions. -/
  fdeEncoding : Option UInt8
  /-- The encoding byte of pointers to language-specific data. -/
  lsdaEncoding : Option UInt8
  /-- The encoding byte of the personality routine. -/
  personalityEncoding : Option UInt8
  /-- The personality routine. -/
  personality : Option Pointer
deriving DecidableEq, Repr

/-- Why the reading of a block ended. -/
inductive BlockEnding where
  /-- Every character was followed. -/
  | complete
  /-- A character is unknown. -/
  | unknownCode (code : UInt8)
  /-- A field could not be read. -/
  | failed (fault : Fault)
deriving DecidableEq, Repr

/-- The fault that ended the reading of a block, if one did. -/
def BlockEnding.fault? : BlockEnding → Option Fault
  | .failed fault => some fault
  | _ => none

namespace Declared

/-- Nothing, where the given features were met. -/
def nothing (features : Features) : Declared := ⟨features, none, none, none, none⟩

/-- An encoding byte as a declaration. -/
def declaredByte (byte : UInt8) : Option UInt8 :=
  if byte = PointerEncoding.omitted then none else some byte

/-- The same with part of the block skipped. -/
def skip (declared : Declared) : Declared :=
  { declared with features := { declared.features with skipped := true } }

/-- Reads an encoding of pointers to language-specific data. -/
def readLsdaEncoding (declared : Declared) (block : Window) : Declared × Except Fault Window :=
  let met := { declared with features := { declared.features with lsda := true } }
  match block.byte with
  | .ok (byte, rest) => ({ met with lsdaEncoding := declaredByte byte }, .ok rest)
  | .error fault => (met, .error fault)

/-- Reads an encoding of the addresses of functions. -/
def readFdeEncoding (declared : Declared) (block : Window) : Declared × Except Fault Window :=
  let met := { declared with features := { declared.features with fdeEncoding := true } }
  match block.byte with
  | .ok (byte, rest) => ({ met with fdeEncoding := declaredByte byte }, .ok rest)
  | .error fault => (met, .error fault)

/-- Reads an encoding and the personality routine. An omitted routine declares nothing. The
encoding is declared before the pointer is read. -/
def readPersonality (target : Target) (declared : Declared) (block : Window) :
    Declared × Except Fault Window :=
  let met := { declared with features := { declared.features with personality := true } }
  match block.byte with
  | .error fault => (met, .error fault)
  | .ok (byte, rest) =>
    match PointerEncoding.decode byte with
    | .error fault => (met, .error fault)
    | .ok none => (met, .ok rest)
    | .ok (some encoding) =>
      let encoded := { met with personalityEncoding := some byte }
      match rest.pointer target encoding none with
      | .error fault => (encoded, .error fault)
      | .ok (pointer, rest) => ({ encoded with personality := some pointer }, .ok rest)

/-- Reads the field that an action asks for. -/
def readField (target : Target) (action : AugmentationAction) (declared : Declared)
    (block : Window) : Declared × Except Fault Window :=
  match action with
  | .readPersonality => declared.readPersonality target block
  | .readLsdaEncoding => declared.readLsdaEncoding block
  | .readFdeEncoding => declared.readFdeEncoding block
  | .readLength | .skipRest | .ignore => (declared, .ok block)

/-- Reads the fields that the rest of a string asks for, from the rest of a block. -/
def readBlock (target : Target) :
    AugmentationState → List UInt8 → Declared → Window → Declared × BlockEnding
  | _, [], declared, _ => (declared, .complete)
  | state, code :: codes, declared, block =>
    let (next, action) := state.transition code
    if action = .skipRest then
      (declared.skip, .unknownCode code)
    else
      match declared.readField target action block with
      | (declared, .ok rest) => readBlock target next codes declared rest
      | (declared, .error fault) => (declared.skip, .failed fault.withinBlock)

/-- What an augmentation string declares together with the bytes after the CIE's own fields, why
the reading ended, and the window after the block. If the block does not fit, nothing after its
length can be located. -/
def read (target : Target) (codes : List UInt8) (window : Window) :
    Declared × BlockEnding × Window :=
  match codes with
  | [] => (nothing .none, .complete, window)
  | code :: codes =>
    match AugmentationState.start.transition code with
    | (state, .readLength) =>
      let found := nothing { Features.none with data := true }
      match window.block with
      | .ok (block, rest) =>
        let (declared, ending) := readBlock target state codes found block
        (declared, ending, rest)
      | .error _ => (found.skip, .failed (.invalidAugmentation window.offset), window.dropAll)
    | (_, _) => (nothing { Features.none with malformed := true }, .complete, window)

end Declared

end UnwindTables

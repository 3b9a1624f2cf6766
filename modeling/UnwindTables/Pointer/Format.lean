/-
UnwindTables.Pointer.Format — how the value of an encoded pointer is stored, and what the value
is relative to.

A pointer encoding is one byte: the low nibble is a `ValueFormat`, bits 4 to 6 are an
`Application`. Both are given here with their bits and the names that messages use; the byte as a
whole is the subject of `UnwindTables.Pointer.Encoding`.
-/

namespace UnwindTables

/-- How many bytes an address takes. -/
inductive AddressSize where
  /-- 32-bit addresses. -/
  | four
  /-- 64-bit addresses. -/
  | eight
deriving DecidableEq, Repr

namespace AddressSize

/-- The number of bytes. -/
def bytes : AddressSize → Nat
  | .four => 4
  | .eight => 8

/-- The address size of that many bytes, if it is one. -/
def ofBytes? : Nat → Option AddressSize
  | 4 => some .four
  | 8 => some .eight
  | _ => none

/-- The address size that a field of `n` bytes an address is stored with: every size but four is
stored in eight bytes. -/
def ofBytesD (n : Nat) : AddressSize := (ofBytes? n).getD .eight

/-- A value cut to the size of an address. -/
def truncate (size : AddressSize) (value : UInt64) : UInt64 :=
  match size with
  | .four => value &&& 0xffffffff
  | .eight => value

/-- A value read as a signed number of the size of an address. -/
def signed (size : AddressSize) (value : UInt64) : Int64 :=
  match size with
  | .four => value.toUInt32.toInt32.toInt64
  | .eight => value.toInt64

end AddressSize

/-- How the value of an encoded pointer is stored. -/
inductive ValueFormat where
  /-- An unsigned number of the size of an address. -/
  | absptr
  /-- An unsigned number in groups of seven bits. -/
  | uleb128
  /-- An unsigned number of two bytes. -/
  | udata2
  /-- An unsigned number of four bytes. -/
  | udata4
  /-- An unsigned number of eight bytes. -/
  | udata8
  /-- A signed number of the size of an address. -/
  | signed
  /-- A signed number in groups of seven bits. -/
  | sleb128
  /-- A signed number of two bytes. -/
  | sdata2
  /-- A signed number of four bytes. -/
  | sdata4
  /-- A signed number of eight bytes. -/
  | sdata8
deriving DecidableEq, Repr

namespace ValueFormat

/-- Every format. -/
def all : List ValueFormat :=
  [absptr, uleb128, udata2, udata4, udata8, signed, sleb128, sdata2, sdata4, sdata8]

/-- The low nibble that stands for the format. -/
def bits : ValueFormat → UInt8
  | absptr => 0x00
  | uleb128 => 0x01
  | udata2 => 0x02
  | udata4 => 0x03
  | udata8 => 0x04
  | signed => 0x08
  | sleb128 => 0x09
  | sdata2 => 0x0a
  | sdata4 => 0x0b
  | sdata8 => 0x0c

/-- The format that the low nibble of an encoding byte stands for. -/
def ofBits? (byte : UInt8) : Option ValueFormat :=
  all.find? fun format => format.bits == byte &&& 0x0f

/-- The name of the format in messages and listings. -/
def name : ValueFormat → String
  | absptr => "AbsPtr"
  | uleb128 => "Uleb128"
  | udata2 => "Udata2"
  | udata4 => "Udata4"
  | udata8 => "Udata8"
  | signed => "Signed"
  | sleb128 => "Sleb128"
  | sdata2 => "Sdata2"
  | sdata4 => "Sdata4"
  | sdata8 => "Sdata8"

/-- The stored size of a value where an address takes `addressSize` bytes, if the format has one
that does not depend on the value. -/
def size? (addressSize : Nat) : ValueFormat → Option Nat
  | absptr | signed => some addressSize
  | udata2 | sdata2 => some 2
  | udata4 | sdata4 => some 4
  | udata8 | sdata8 => some 8
  | uleb128 | sleb128 => none

/-- Whether values of the format are extended by their sign. -/
def isSigned : ValueFormat → Bool
  | signed | sleb128 | sdata2 | sdata4 | sdata8 => true
  | absptr | uleb128 | udata2 | udata4 | udata8 => false

theorem ofBits?_bits (format : ValueFormat) : ofBits? format.bits = some format := by
  cases format <;> rfl

end ValueFormat

/-- What the value of an encoded pointer is relative to. -/
inductive Application where
  /-- The value is the address. -/
  | absolute
  /-- The value is relative to the address of the field it is stored in. -/
  | pcrel
  /-- The value is relative to the start of the code section. -/
  | textrel
  /-- The value is relative to the data base of the section it is stored in. -/
  | datarel
  /-- The value is relative to the start of the function that is described. -/
  | funcrel
  /-- The field is aligned to the size of an address. Such pointers are not supported. -/
  | aligned
deriving DecidableEq, Repr

namespace Application

/-- Every application. -/
def all : List Application := [absolute, pcrel, textrel, datarel, funcrel, aligned]

/-- The bits 4 to 6 that stand for the application. -/
def bits : Application → UInt8
  | absolute => 0x00
  | pcrel => 0x10
  | textrel => 0x20
  | datarel => 0x30
  | funcrel => 0x40
  | aligned => 0x50

/-- The application that bits 4 to 6 of an encoding byte stand for. -/
def ofBits? (byte : UInt8) : Option Application :=
  all.find? fun application => application.bits == byte &&& 0x70

/-- The name of the application in messages and listings. -/
def name : Application → String
  | absolute => "absptr"
  | pcrel => "pcrel"
  | textrel => "textrel"
  | datarel => "datarel"
  | funcrel => "funcrel"
  | aligned => "aligned"

theorem ofBits?_bits (application : Application) :
    ofBits? application.bits = some application := by
  cases application <;> rfl

end Application

end UnwindTables

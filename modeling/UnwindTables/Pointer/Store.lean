/-
UnwindTables.Pointer.Store — storing an address as an encoded pointer.

* `ValueFormat.store` — the bytes of a value, or the fault that it does not fit.
* `PointerEncoding.store` — the bytes that stand for an address at a site.
* `BufferWriter` — writing at the end of a buffer that outlives a fault; `ValueFormat.append` and
  `PointerEncoding.append` put a value and a pointer there.

The value that is stored is the distance from the base of the application to the address, cut to
the size of an address. The base is asked for first: an encoding without one is reported even for
an address that does not fit.
-/
import UnwindTables.Pointer.Encoding
import UnwindTables.Pointer.Site
import UnwindTables.Pointer.Value
import UnwindTables.WriteFault

namespace UnwindTables

/-- The bytes of a value. -/
def ValueFormat.store (format : ValueFormat) (order : ByteOrder) (addressSize : AddressSize)
    (value : UInt64) : Except WriteFault (List UInt8) :=
  match format.write? order addressSize value with
  | some bytes => .ok bytes
  | none => .error (.valueOutOfRange value format)

/-- The bytes that stand for `address` at a site. -/
def PointerEncoding.store (encoding : PointerEncoding) (order : ByteOrder) (site : Site)
    (address : UInt64) : Except WriteFault (List UInt8) :=
  match site.base encoding.application with
  | .error fault => .error (.encoding fault)
  | .ok base =>
    encoding.format.store order site.addressSize (site.addressSize.truncate (address - base))

/-- Writing at the end of a buffer. What has been written before a fault stays. -/
abbrev BufferWriter := ExceptT WriteFault (StateM (List UInt8))

namespace BufferWriter

/-- Puts bytes at the end of the buffer. -/
def put (bytes : List UInt8) : BufferWriter Unit := modify (· ++ bytes)

/-- How the writing ends, and the buffer after it. -/
def runOn (writer : BufferWriter Unit) (buffer : List UInt8) :
    Except WriteFault Unit × List UInt8 :=
  (ExceptT.run writer).run buffer

end BufferWriter

/-- Puts a value at the end of a buffer. -/
def ValueFormat.append (format : ValueFormat) (order : ByteOrder) (addressSize : AddressSize)
    (value : UInt64) : BufferWriter Unit :=
  match format.write? order addressSize value with
  | some bytes => BufferWriter.put bytes
  | none => throw (.valueOutOfRange value format)

/-- Puts a pointer to `address` at the end of a buffer, where the place after the buffer is the
site. -/
def PointerEncoding.append (encoding : PointerEncoding) (order : ByteOrder) (site : Site)
    (address : UInt64) : BufferWriter Unit := do
  match site.base encoding.application with
  | .error fault => throw (.encoding fault)
  | .ok base =>
    encoding.format.append order site.addressSize (site.addressSize.truncate (address - base))

end UnwindTables

/-
UnwindTables.Pointer.Site — the place that a pointer is stored at.

* `Bases` — the addresses that sections are loaded at.
* `Site` — everything that the address of a pointer depends on besides its bytes: the bases, the
  address of the field, the function that is described, and the size of an address.
* `Site.base` — what the value of a pointer is relative to at a site.
* `Target` — how a section is stored and where it is loaded; `Target.site` is the site of a field
  of that section.
-/
import UnwindTables.Bytes.Order
import UnwindTables.Fault

namespace UnwindTables

/-- The addresses that sections are loaded at. -/
structure Bases where
  /-- The address of the section that is read. -/
  ehFrame : UInt64
  /-- The address of its search table. -/
  ehFrameHdr : Option UInt64
  /-- The start of the code. -/
  text : Option UInt64
  /-- The start of the data. -/
  data : Option UInt64
deriving DecidableEq, Repr

/-- The bases of the fields of a search table: its own start is the base of its data. -/
def Bases.ofSearchTable (address : UInt64) : Bases := ⟨address, some address, none, some address⟩

/-- The place that a pointer is stored at. -/
structure Site where
  /-- Where sections are loaded. -/
  bases : Bases
  /-- The address of the first byte of the pointer. -/
  fieldAddress : UInt64
  /-- The start of the function that the pointer belongs to. -/
  function : Option UInt64
  /-- How many bytes an address takes. -/
  addressSize : AddressSize
deriving DecidableEq, Repr

/-- The address that the value of a pointer is relative to. Aligned pointers have none. -/
def Site.base (site : Site) : Application → Except Fault UInt64
  | .absolute => .ok 0
  | .pcrel => .ok site.fieldAddress
  | .textrel => known site.bases.text .textrel
  | .datarel => known site.bases.data .datarel
  | .funcrel => known site.function .funcrel
  | .aligned => .error (.unsupportedEncoding Application.aligned.bits)
where
  known (address : Option UInt64) (application : Application) : Except Fault UInt64 :=
    match address with
    | some address => .ok address
    | none => .error (.missingBase application)

/-- How a section is stored and where it is loaded. -/
structure Target where
  /-- The byte order of its fields. -/
  order : ByteOrder
  /-- How many bytes an address takes. -/
  addressSize : AddressSize
  /-- Where sections are loaded, this one at `ehFrame`. -/
  bases : Bases
deriving DecidableEq, Repr

namespace Target

/-- The address of the byte at a section offset. -/
def fieldAddress (target : Target) (offset : Nat) : UInt64 :=
  target.bases.ehFrame + UInt64.ofNat offset

/-- The site of the field at a section offset. -/
def site (target : Target) (offset : Nat) (function : Option UInt64) : Site :=
  ⟨target.bases, target.fieldAddress offset, function, target.addressSize⟩

end Target

end UnwindTables

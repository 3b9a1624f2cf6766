/-
UnwindTables.Blueprint.SearchTable — the search table of a section that is written.

* `Blueprint.buildSearchTable` — the bytes of a search table that is loaded at an address: where
  the section is, how many FDEs it has, and their places in ascending order.

Every address is stored as a signed number of four bytes: that of the section relative to its own
place, the others relative to the start of the search table.
-/
import UnwindTables.Blueprint.Emission

namespace UnwindTables

/-- Places are in order by the address of the code, and by the offset of the record where the code
is the same. -/
def FdePlace.le (a b : FdePlace) : Bool :=
  a.pcBegin < b.pcBegin || a.pcBegin == b.pcBegin && a.offset ≤ b.offset

namespace Blueprint

/-- How a search table names the address of the section. -/
def sectionEncoding : PointerEncoding := ⟨.sdata4, .pcrel, false⟩

/-- How a search table stores the number of its entries. -/
def countEncoding : PointerEncoding := ⟨.udata4, .absolute, false⟩

/-- How a search table stores its entries. -/
def entryEncoding : PointerEncoding := ⟨.sdata4, .datarel, false⟩

/-- The entries of a search table for a section that is loaded at `ehFrame`, at an offset in the
search table. -/
def writeEntries (target : Target) (ehFrame : UInt64) :
    List FdePlace → (offset : Nat) → Except WriteFault (List UInt8)
  | [], _ => .ok []
  | place :: places, offset => do
    let location ← entryEncoding.store target.order (target.site offset none) place.pcBegin
    let middle := offset + location.length
    let fde ← entryEncoding.store target.order (target.site middle none)
      (ehFrame + UInt64.ofNat place.offset)
    return location ++ fde ++ (← writeEntries target ehFrame places (middle + fde.length))

/-- The bytes of a search table that is loaded at an address. -/
def buildSearchTable (blueprint : Blueprint) (order : ByteOrder) (address : UInt64) :
    Except WriteFault (List UInt8) := do
  let places := (← blueprint.emit order).fdes.mergeSort FdePlace.le
  let target := ⟨order, blueprint.addressSize, Bases.ofSearchTable address⟩
  let header := [1, sectionEncoding.bits, countEncoding.bits, entryEncoding.bits]
  let ehFrame := blueprint.bases.ehFrame
  let pointer ← sectionEncoding.store order (target.site header.length none) ehFrame
  let count ← countEncoding.format.store order target.addressSize (UInt64.ofNat places.length)
  let entries ← writeEntries target ehFrame places (header.length + pointer.length + count.length)
  return header ++ pointer ++ count ++ entries

end Blueprint

end UnwindTables

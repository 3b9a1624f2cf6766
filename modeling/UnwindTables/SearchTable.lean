/-
UnwindTables.SearchTable — the index of a section by address.

* `SearchTable` — where the section is, and one entry for every function.
* `SearchTable.parse` — the index stored in some bytes. Its count is only a claim: an index with
  fewer entries than it claims is a fault, however many it claims.
* `SearchTable.stale` — the entries that do not match the FDEs of a table.
* `SearchTable.verify` — the table with those entries reported.
-/
import UnwindTables.Table

namespace UnwindTables

/-- The place of the description of one function. -/
structure SearchEntry where
  /-- The start of the function. -/
  initialLocation : UInt64
  /-- The address of its FDE. -/
  fdeAddress : UInt64
deriving DecidableEq, Repr

/-- The index of a section by address. -/
structure SearchTable where
  /-- The version of the index. -/
  version : UInt8
  /-- Where the section is, according to the index. -/
  ehFramePointer : Pointer
  /-- The entries, in the order in which they are stored. -/
  entries : List SearchEntry
deriving DecidableEq, Repr

namespace SearchTable

/-- So many entries from the start of a window. -/
def readEntries (target : Target) (encoding : PointerEncoding) :
    Nat → Window → Except Fault (List SearchEntry)
  | 0, _ => .ok []
  | count + 1, window => do
    let (initialLocation, rest) ← window.pointer target encoding none
    let (fdeAddress, rest) ← rest.pointer target encoding none
    let entries ← readEntries target encoding count rest
    return ⟨initialLocation.address, fdeAddress.address⟩ :: entries

/-- The entries at the start of a window with their count in front, both stored in the encodings
that two bytes stand for. There are none if either is omitted. -/
def readCounted (target : Target) (countByte entryByte : UInt8) (window : Window) :
    Except Fault (List SearchEntry) :=
  if countByte = PointerEncoding.omitted ∨ entryByte = PointerEncoding.omitted then
    .ok []
  else do
    let countEncoding ← PointerEncoding.decodePresent countByte
    let (count, rest) ← window.pointer target countEncoding none
    let entryEncoding ← PointerEncoding.decodePresent entryByte
    readEntries target entryEncoding count.address.toNat rest

/-- The index stored in some bytes that are loaded at an address. -/
def parse (order : ByteOrder) (addressSize : AddressSize) (address : UInt64)
    (bytes : List UInt8) : Except Fault SearchTable :=
  match bytes with
  | version :: pointerByte :: countByte :: entryByte :: rest => do
    if version = 1 then
      let target := ⟨order, addressSize, Bases.ofSearchTable address⟩
      let pointerEncoding ← PointerEncoding.decodePresent pointerByte
      let (ehFramePointer, rest) ← Window.pointer ⟨rest, 4⟩ target pointerEncoding none
      let entries ← readCounted target countByte entryByte rest
      return ⟨version, ehFramePointer, entries⟩
    else
      throw (.unsupportedHeaderVersion version)
  | _ => .error (.malformed 0 .unexpectedEnd)

/-- The section offset of the FDE that an entry names, for a section loaded at `ehFrame`. -/
def fdeOffset (entry : SearchEntry) (ehFrame : UInt64) : Nat :=
  (entry.fdeAddress - ehFrame).toNat

/-- Whether an entry names an FDE that starts where the entry says. -/
def matchesFde (table : Table) (ehFrame : UInt64) (entry : SearchEntry) : Bool :=
  (table.fde? (fdeOffset entry ehFrame)).any fun f => f.pcBegin == entry.initialLocation

/-- A diagnostic for every entry that names no such FDE. -/
def stale (searchTable : SearchTable) (table : Table) (ehFrame : UInt64) : List Diagnostic :=
  (searchTable.entries.filter fun entry => !matchesFde table ehFrame entry).map fun entry =>
    ⟨fdeOffset entry ehFrame, .staleSearchEntry entry.initialLocation entry.fdeAddress⟩

/-- The table with the entries reported that do not match it, and how many they are. -/
def verify (searchTable : SearchTable) (table : Table) (ehFrame : UInt64) : Table × Nat :=
  let stale := searchTable.stale table ehFrame
  ({ table with diagnostics := table.diagnostics ++ stale }, stale.length)

/-- What is told about the check. -/
def verifyNotes (searchTable : SearchTable) (table : Table) (ehFrame : UInt64) : Journal :=
  let recorded := searchTable.ehFramePointer.address
  (if recorded = ehFrame then [] else [.sectionElsewhere recorded ehFrame]) ++
    (searchTable.stale table ehFrame).map .recovered

end SearchTable

end UnwindTables

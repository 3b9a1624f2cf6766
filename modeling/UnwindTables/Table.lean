/-
UnwindTables.Table — everything that a section describes.

* `Entry` — what became of one record: a CIE, an FDE, or nothing but the reason.
* `Entry.readAll` — the entries of the records of a section, in order. An FDE is read with the CIE
  that it refers to, which has to come before it.
* `Table` — the CIEs, the FDEs, and the faults that were recovered from; `Table.ofEntries`.
* `Table.parse` — the table of a section, or the damage to its framing, and what is told about it.
* `Table.cie?`, `fde?`, `cieFor?`, `fdeForAddress?` — looking a record up.

A record is the only thing that damage inside it can cost, so a table is always as complete as its
section allows.
-/
import UnwindTables.Fde
import UnwindTables.Journal

namespace UnwindTables

/-- What became of one record. -/
inductive Entry where
  /-- A CIE, and why the reading of its augmentation ended. -/
  | cie (cie : Cie) (ending : BlockEnding)
  /-- An FDE, and why its language-specific data could not be read. -/
  | fde (fde : Fde) (problem : Option Fault)
  /-- The record at an offset could not be read. -/
  | dropped (offset : Nat) (fault : Fault)
deriving DecidableEq, Repr

namespace Entry

/-- The CIE of an entry. -/
def cie? : Entry → Option Cie
  | cie c _ => some c
  | _ => none

/-- The FDE of an entry. -/
def fde? : Entry → Option Fde
  | fde f _ => some f
  | _ => none

/-- The section offset of the record. -/
def offset : Entry → Nat
  | cie c _ => c.offset
  | fde f _ => f.offset
  | dropped offset _ => offset

/-- The fault that was met in the record. -/
def fault? : Entry → Option Fault
  | cie _ ending => ending.fault?
  | fde _ problem => problem
  | dropped _ fault => some fault

/-- The fault that was met in the record, as a diagnostic. -/
def diagnostic? (entry : Entry) : Option Diagnostic :=
  entry.fault?.map fun fault => ⟨entry.offset, fault⟩

/-- What is told about a record. -/
def note? (entry : Entry) : Option Note :=
  match entry with
  | cie c (.unknownCode code) => some (.unknownCode c.offset code)
  | _ => entry.diagnostic?.map .recovered

/-- The entry of a record, where `seen` are the CIEs before it. -/
def read (target : Target) (image : Option Image) (seen : List Cie) (record : Record) : Entry :=
  match record.kind with
  | .cie =>
    match Cie.read target record with
    | .ok (c, ending) => cie c ending
    | .error fault => dropped record.offset fault.withinRecord
  | .fde owner =>
    match seen.find? fun c => c.offset == owner with
    | none => dropped record.offset (.danglingReference record.offset owner)
    | some c =>
      match Fde.read target image c record with
      | .ok (f, problem) => fde f problem
      | .error fault => dropped record.offset fault.withinRecord

/-- The entries of the records of a section, where `seen` are the CIEs before them. -/
def readAll (target : Target) (image : Option Image) : List Cie → List Record → List Entry
  | _, [] => []
  | seen, record :: records =>
    let entry := read target image seen record
    entry :: readAll target image (entry.cie?.toList ++ seen) records

end Entry

/-- Everything that a section describes. -/
structure Table where
  /-- The CIEs, in the order of the section. -/
  cies : List Cie
  /-- The FDEs, in the order of the section. -/
  fdes : List Fde
  /-- The faults that were recovered from, in the order in which they were met. -/
  diagnostics : List Diagnostic
deriving DecidableEq, Repr

namespace Table

/-- The table of a binary without a section. -/
def empty : Table := ⟨[], [], []⟩

/-- The table of some entries. -/
def ofEntries (entries : List Entry) : Table :=
  ⟨entries.filterMap Entry.cie?, entries.filterMap Entry.fde?,
    entries.filterMap Entry.diagnostic?⟩

/-- The table of a section, or the fault that ends its records, and what is told about it. -/
def parseWithJournal (target : Target) (image : Option Image) (bytes : List UInt8) :
    Except Fault Table × Journal :=
  let framing := Framing.ofSection target.order bytes
  let entries := Entry.readAll target image [] framing.records
  let notes := entries.filterMap Entry.note?
  match framing.fault with
  | some fault => (.error fault, notes)
  | none =>
    let table := ofEntries entries
    (.ok table, notes ++
      [.sectionRead table.cies.length table.fdes.length table.diagnostics.length])

/-- The table of a section, or the fault that ends its records. -/
def parse (target : Target) (image : Option Image) (bytes : List UInt8) : Except Fault Table :=
  (parseWithJournal target image bytes).1

/-- The CIE at a section offset. -/
def cie? (table : Table) (offset : Nat) : Option Cie :=
  table.cies.find? fun c => c.offset == offset

/-- The FDE at a section offset. -/
def fde? (table : Table) (offset : Nat) : Option Fde :=
  table.fdes.find? fun f => f.offset == offset

/-- The CIE that goes with an FDE. -/
def cieFor? (table : Table) (fde : Fde) : Option Cie := table.cie? fde.cie

/-- The first FDE whose code contains an address. -/
def fdeForAddress? (table : Table) (address : UInt64) : Option Fde :=
  table.fdes.find? fun f => f.contains address

end Table

end UnwindTables

/-
UnwindTables.Journal — what is told about the work as it goes on.

* `Level` — how much attention a note asks for.
* `Note` — one thing that happened; `Note.level` and `Note.message` say how it is told.
* `Journal` — notes in the order in which things happened; `Journal.lines` are those that are at
  least as severe as a level.
-/
import UnwindTables.Fault
import UnwindTables.Text.Quoted

namespace UnwindTables

/-- How much attention a note asks for. -/
inductive Level where
  /-- Something was wrong. -/
  | warn
  /-- Something a user may want to know. -/
  | info
  /-- Something that helps to follow the work. -/
  | debug
deriving DecidableEq, Repr

namespace Level

/-- The name of a level. -/
def name : Level → String
  | warn => "WARN"
  | info => "INFO"
  | debug => "DEBUG"

/-- How far a level is from the most severe one. -/
def rank : Level → Nat
  | warn => 0
  | info => 1
  | debug => 2

end Level

/-- One thing that happened. -/
inductive Note where
  /-- A fault was recovered from. -/
  | recovered (diagnostic : Diagnostic)
  /-- A character of the augmentation string of a CIE is unknown. -/
  | unknownCode (cie : Nat) (code : UInt8)
  /-- A section was read. -/
  | sectionRead (cies fdes diagnostics : Nat)
  /-- A search table names another address for the section than the one it is loaded at. -/
  | sectionElsewhere (recorded actual : UInt64)
  /-- A search table was checked. -/
  | searchTableChecked (entries mismatches : Nat)
  /-- A binary has nothing to read. -/
  | sectionMissing
  /-- A file of facts was written. -/
  | factsWritten (count : Nat) (path : String)
deriving DecidableEq, Repr

namespace Note

/-- How much attention a note asks for. -/
def level : Note → Level
  | recovered _ | sectionElsewhere .. => .warn
  | sectionMissing => .info
  | unknownCode .. | sectionRead .. | searchTableChecked .. | factsWritten .. => .debug

/-- The text of a note. -/
def message : Note → String
  | recovered diagnostic => s!"{Hex.literal diagnostic.offset}: {diagnostic.fault.message}"
  | unknownCode cie code =>
    s!"CIE at {Hex.literal cie}: skipping augmentation data after unknown code " ++
      Quoted.character (Char.ofNat code.toNat)
  | sectionRead cies fdes diagnostics =>
    s!"parsed {cies} CIEs and {fdes} FDEs with {diagnostics} diagnostics"
  | sectionElsewhere recorded actual =>
    s!".eh_frame_hdr points at {Hex.literal recorded.toNat} but .eh_frame is at " ++
      Hex.literal actual.toNat
  | searchTableChecked entries mismatches =>
    s!".eh_frame_hdr indexes {entries} FDEs with {mismatches} mismatches"
  | sectionMissing => "binary has no .eh_frame section"
  | factsWritten count path => s!"wrote {count} tuples to `{path}`"

/-- A note as a line of the journal. -/
def line (note : Note) : String := note.level.name ++ " " ++ note.message

end Note

/-- Notes in the order in which things happened. -/
abbrev Journal := List Note

/-- The lines of the notes that are at least as severe as a level. -/
def Journal.lines (journal : Journal) (level : Level) : List String :=
  (journal.filter fun note => note.level.rank ≤ level.rank).map Note.line

end UnwindTables

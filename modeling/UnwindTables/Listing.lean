/-
UnwindTables.Listing — a table as text.

* `Listing.ofTable` — the records of a table; `Listing.ofSearchTable` — the entries of a search
  table; `Listing.ofDiagnostics` — the problems, if there are any.
* `Listing.text` — all of them together.

Offsets and lengths have at least eight digits and stand for themselves; addresses are marked as
hexadecimal.
-/
import UnwindTables.SearchTable
import UnwindTables.Text.Quoted

namespace UnwindTables.Listing

/-- Lines of text, each with its end. -/
def unlines (lines : List String) : String := String.join (lines.map (· ++ "\n"))

/-- An address. -/
def address (value : UInt64) : String := Hex.literal value.toNat

/-- An encoding byte with what it stands for. -/
def encoding : Option UInt8 → String
  | none => "none"
  | some byte =>
    match PointerEncoding.decode byte with
    | .ok (some encoding) => s!"{encoding.text} ({Hex.byte byte})"
    | _ => Hex.byte byte

/-- The line of a personality routine. -/
def personality (pointer : Pointer) (byte : Option UInt8) : String :=
  let marker := if pointer.indirect then " [indirect]" else ""
  s!"  Personality:           {address pointer.address}{marker} ({encoding byte})"

/-- The lines of a CIE. -/
def cie (cie : Cie) : List String :=
  [ s!"{Hex.padded 8 cie.offset} {Hex.padded 8 cie.length} CIE",
    s!"  Version:               {cie.version.number.toNat}",
    s!"  Augmentation:          {Quoted.text cie.augmentationText}",
    s!"  Code alignment factor: {cie.codeAlignment.toNat}",
    s!"  Data alignment factor: {cie.dataAlignment.toInt}",
    s!"  Return address column: {cie.returnAddressRegister.toNat}",
    s!"  FDE encoding:          {encoding cie.declared.fdeEncoding}",
    s!"  LSDA encoding:         {encoding cie.declared.lsdaEncoding}" ] ++
    (cie.declared.personality.map
      fun pointer => personality pointer cie.declared.personalityEncoding).toList ++
    [""]

/-- The lines of an FDE. -/
def fde (fde : Fde) : List String :=
  [ s!"{Hex.padded 8 fde.offset} {Hex.padded 8 fde.length} FDE cie={Hex.padded 8 fde.cie} " ++
      s!"pc={address fde.pcBegin}..{address fde.pcEnd}" ] ++
    (fde.lsda.map fun pointer => s!"  LSDA: {address pointer.address}").toList ++
    [s!"  Instructions: {fde.instructions.size} bytes"]

/-- The records of a table. -/
def ofTable (table : Table) (bases : Bases) : List String :=
  [ "Section:",
    s!"  Address:  {address bases.ehFrame}",
    s!"  Num CIEs: {table.cies.length}",
    s!"  Num FDEs: {table.fdes.length}",
    "" ] ++
    table.cies.flatMap cie ++ table.fdes.flatMap fde ++ [""]

/-- The entries of a search table. -/
def ofSearchTable (searchTable : SearchTable) : List String :=
  [ "Search table:",
    s!"  Version:      {searchTable.version.toNat}",
    s!"  eh_frame_ptr: {address searchTable.ehFramePointer.address}",
    s!"  FDE count:    {searchTable.entries.length}" ] ++
    (searchTable.entries.map fun entry =>
      s!"  {Hex.padded 16 entry.initialLocation.toNat} -> " ++
        Hex.padded 16 entry.fdeAddress.toNat) ++
    [""]

/-- The problems that were recovered from. -/
def ofDiagnostics : List Diagnostic → List String
  | [] => []
  | diagnostics =>
    "Problems:" :: diagnostics.map fun diagnostic => s!"  {diagnostic.message}"

/-- A table with its search table, if there is one, and the problems of both. -/
def text (table : Table) (bases : Bases) (searchTable : Option SearchTable) : String :=
  unlines (ofTable table bases ++ (searchTable.map ofSearchTable).getD [] ++
    ofDiagnostics table.diagnostics)

end UnwindTables.Listing

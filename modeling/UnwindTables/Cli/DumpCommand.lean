/-
UnwindTables.Cli.DumpCommand — the tool that prints what an object file describes.

* `DumpCommand.listing` — the listing of an object file, and what is told about it.
* `DumpCommand.run` — a run of the tool with some arguments.
-/
import UnwindTables.Cli.DumpOptions
import UnwindTables.Cli.Files
import UnwindTables.Listing

namespace UnwindTables.DumpCommand

/-- How the tool is used. -/
def help : String :=
  "Dump the exception handling information of an ELF object.\n" ++
  "\n" ++
  "USAGE\n" ++
  "    ehframedump [OPTIONS] <object file>\n" ++
  "\n" ++
  "DESCRIPTION\n" ++
  "    ehframedump prints the CIEs and FDEs contained in the .eh_frame section of\n" ++
  "    an ELF object in a human readable format, followed by any problems that\n" ++
  "    were found while decoding them.\n" ++
  "\n" ++
  "FLAGS\n" ++
  "    -h\n" ++
  "    --help\n" ++
  "        Print this help message and then exit.\n" ++
  "\n" ++
  "    -x\n" ++
  "    --hdr\n" ++
  "        Also print the search table of the .eh_frame_hdr section and check it\n" ++
  "        against the FDEs.\n" ++
  "\n"

/-- The contents of a section, if the file has it. -/
def contents (file : ObjectFile) (name : SectionName) : Except Failure (Option (List UInt8)) :=
  (file.contents name).mapError fun cause =>
    ⟨s!"failed to decompress the {name.name} section", [cause]⟩

/-- The failure of a section that cannot be read. -/
def sectionFailure (name : SectionName) (fault : Fault) : Failure :=
  ⟨s!"failed to decode {name.name} section", [fault.message]⟩

/-- The search table of a file that can be read, if it has one. -/
def searchTable? (file : ObjectFile) (bases : Bases) : Except Failure (Option SearchTable) := do
  match ← contents file .ehFrameHdr with
  | none => return none
  | some bytes =>
    match SearchTable.parse file.order file.addressSize (bases.ehFrameHdr.getD 0) bytes with
    | .error fault => throw (sectionFailure .ehFrameHdr fault)
    | .ok searchTable => return some searchTable

/-- The listing of a table, checked against a search table if there is one, and what is told about
the check. -/
def checkedListing (table : Table) (bases : Bases) (searchTable : Option SearchTable) :
    String × Journal :=
  match searchTable with
  | none => (Listing.text table bases none, [])
  | some searchTable =>
    (Listing.text (searchTable.verify table bases.ehFrame).1 bases (some searchTable),
      searchTable.verifyNotes table bases.ehFrame)

/-- The listing of an object file, with its search table if `hdr` is set, and what is told about
it. The section has to be there; the search table need not. -/
def listing (file : ObjectFile) (hdr : Bool) : Except Failure String × Journal :=
  match contents file .ehFrame with
  | .error failure => (.error failure, [])
  | .ok none => (.error ⟨"elf binary has no .eh_frame section", []⟩, [])
  | .ok (some bytes) =>
    let bases := file.binary.bases
    match Table.parseWithJournal ⟨file.order, file.addressSize, bases⟩ none bytes with
    | (.error fault, notes) => (.error (sectionFailure .ehFrame fault), notes)
    | (.ok table, notes) =>
      match if hdr then searchTable? file bases else .ok none with
      | .error failure => (.error failure, notes)
      | .ok searchTable =>
        let (text, more) := checkedListing table bases searchTable
        (.ok text, notes ++ more)

variable {m : Type → Type} [Monad m]

/-- Prints the listing of the object file at a path. -/
def runFile (files : FileSystem m) (path : String) (hdr : Bool) : m Outcome := do
  match ← files.load path with
  | .error fault => return .failure "" (fault.failure path)
  | .ok file =>
    match (listing file hdr).1 with
    | .error failure => return .failure "" failure
    | .ok text => return .success text

/-- A run of the tool with some arguments. -/
def run (files : FileSystem m) (arguments : List String) : m Outcome := do
  match DumpOptions.ofArguments arguments with
  | .error fault => return .failure "" ⟨fault.message, []⟩
  | .ok options =>
    if options.has .help then
      return ⟨0, "", help⟩
    else
      match options.free with
      | [] => return .failure "" ⟨"no object file input provided", []⟩
      | [path] => runFile files path (options.has .hdr)
      | _ => return .failure "" ⟨"at most one object file can be provided as an input", []⟩

end UnwindTables.DumpCommand

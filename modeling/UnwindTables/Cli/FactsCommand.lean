/-
UnwindTables.Cli.FactsCommand — the tool that writes the facts of an object file.

* `FactsCommand.run` — a run of the tool with some arguments.
-/
import UnwindTables.Cli.FactsOptions
import UnwindTables.Cli.Files

namespace UnwindTables.FactsCommand

/-- How the tool is used. -/
def usage : String := "Usage: ehfacts [OPTIONS] --output <OUTPUT> <INPUT>\n"

/-- The options of the tool. -/
def help : String :=
  usage ++ "\n" ++
    "Arguments:\n" ++
    "  <INPUT>\n\n" ++
    "Options:\n" ++
    "  -o, --output <OUTPUT>  Directory that the `.facts` files are written to\n" ++
    "      --warnings         Print a warning for every record that had to be skipped\n" ++
    "      --no-hdr-check     Do not check the FDEs against the `.eh_frame_hdr` search table\n" ++
    "      --no-image-check   Keep FDEs that start outside of the loadable segments\n" ++
    "  -h, --help             Print help\n"

/-- The failure of a run on an object file that cannot be read. -/
def decodeFailure (path : String) (fault : DecodeFault) : Failure :=
  ⟨s!"failed to decode the exception information of `{path}`",
    fault.message :: fault.cause?.toList⟩

/-- The warnings of a run. -/
def warningText (diagnostics : List Diagnostic) : String :=
  String.join (diagnostics.map fun diagnostic => s!"warning: {diagnostic.message}\n")

variable {m : Type → Type} [Monad m]

/-- Writes the facts of an object file. -/
def writeFacts (files : FileSystem m) (options : FactsOptions) (file : ObjectFile) : m Outcome := do
  match (Decoded.ofBinary file.binary options.decode).1 with
  | .error fault => return .failure "" (decodeFailure options.input fault)
  | .ok decoded =>
    let warnings := if options.warnings then warningText decoded.table.diagnostics else ""
    match (← files.writeFacts options.output decoded.facts).1 with
    | .error fault =>
      return .failure warnings ⟨s!"failed to write facts to `{options.output}`", [fault.message]⟩
    | .ok () => return ⟨0, "", warnings⟩

/-- A run of the tool with some arguments. -/
def run (files : FileSystem m) (arguments : List String) : m Outcome := do
  match FactsRequest.ofArguments arguments with
  | .help => return .success help
  | .invalid => return .usage usage
  | .run options =>
    match ← files.load options.input with
    | .error fault => return .failure "" (fault.failure options.input)
    | .ok file => writeFacts files options file

end UnwindTables.FactsCommand

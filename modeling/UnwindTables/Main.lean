/-
UnwindTables.Main — the command line.

The first argument names the tool, and the rest are its arguments.
-/
import UnwindTables.Cli.DumpCommand
import UnwindTables.Cli.FactsCommand
import UnwindTables.ObjectFile.Elf

namespace UnwindTables.CommandLine

/-- The system's number for a directory where a file is expected. -/
def isDirectoryCode : UInt32 := 21

/-- The system's number for a path that is too long. -/
def nameTooLongCode : UInt32 := 36

/-- Whether a code is the system's number. Some calls give the number negated. -/
def isCode (number code : UInt32) : Bool := code == number || code == 0 - number

/-- A fault of the system in the words of the tools. -/
def fileFault : IO.Error → FileFault
  | .noFileOrDirectory .. => .notFound
  | .alreadyExists .. => .alreadyExists
  | .inappropriateType _ code _ =>
    if isCode isDirectoryCode code then .isDirectory else .notDirectory
  | error@(.invalidArgument _ code _) =>
    if isCode nameTooLongCode code then .nameTooLong else .other (toString error)
  | error => .other (toString error)

/-- The fault of an object file that cannot be read. A directory can be opened, but it has nothing
that could be looked at. -/
def loadFault (error : IO.Error) : LoadFault :=
  match fileFault error with
  | .isDirectory => .unmapped .noDevice
  | fault => .unopened fault

/-- The object file at a path. -/
def load (path : String) : IO (Except LoadFault ObjectFile) := do
  try
    let bytes ← IO.FS.readBinFile path
    return (ObjectFile.ofElf bytes.toList).mapError fun fault => .unparsed fault.message
  catch error =>
    return .error (loadFault error)

/-- An action that may fail with a fault of the system. -/
def attempt (action : IO Unit) : IO (Except FileFault Unit) := do
  try
    action
    return .ok ()
  catch error =>
    return .error (fileFault error)

/-- Makes a directory, unless it is there already: only a directory can be opened by way of the dot
in it. -/
def createDirectory (path : String) : IO (Except FileFault Unit) := do
  match ← attempt (IO.FS.createDir path) with
  | .ok () => return .ok ()
  | .error fault =>
    match ← attempt (discard (IO.FS.Handle.mk (path ++ "/.") .read)) with
    | .ok () => return .ok ()
    | .error _ => return .error fault

/-- What the tools do with files. -/
def fileSystem : FileSystem IO where
  load := load
  createDirectory := createDirectory
  write := fun path text => attempt (IO.FS.writeFile path text)

/-- A run of the tool that the arguments name. -/
def run : List String → IO Outcome
  | "ehfacts" :: arguments => FactsCommand.run fileSystem arguments
  | "ehframedump" :: arguments => DumpCommand.run fileSystem arguments
  | _ => return .usage "Usage: unwind-tables <ehfacts | ehframedump> [ARGUMENTS]\n"

end UnwindTables.CommandLine

/-- Runs a tool, prints what it has to say, and ends with its exit code. -/
def main (arguments : List String) : IO UInt32 := do
  let outcome ← UnwindTables.CommandLine.run arguments
  IO.print outcome.stdout
  IO.eprint outcome.stderr
  return outcome.code.toUInt32

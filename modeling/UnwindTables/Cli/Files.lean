/-
UnwindTables.Cli.Files — files as the tools see them.

* `FileFault` — why something cannot be done with a file or a directory.
* `LoadFault` — why an object file cannot be had: it is not there, it has no contents, or the
  contents are of another kind.
* `FileSystem` — the three things that the tools do with files, in any monad.
* `FileSystem.createDirectories` — a directory and the ones on the way to it.
* `FileSystem.writeFacts` — the files of a set of facts, written into a directory.
-/
import UnwindTables.Cli.Outcome
import UnwindTables.Cli.Path
import UnwindTables.Facts.Files
import UnwindTables.Journal
import UnwindTables.ObjectFile

namespace UnwindTables

/-- Why something cannot be done with a file or a directory. -/
inductive FileFault where
  /-- It is not there. -/
  | notFound
  /-- It is there already. -/
  | alreadyExists
  /-- It is in something that is no directory. -/
  | notDirectory
  /-- It is a directory. -/
  | isDirectory
  /-- It has no contents that could be looked at. -/
  | noDevice
  /-- Its path, or a name in its path, is too long. -/
  | nameTooLong
  /-- Anything else, in the words of the system. -/
  | other (text : String)
deriving DecidableEq, Repr

/-- The text of a fault. -/
def FileFault.message : FileFault → String
  | notFound => "No such file or directory (os error 2)"
  | alreadyExists => "File exists (os error 17)"
  | notDirectory => "Not a directory (os error 20)"
  | isDirectory => "Is a directory (os error 21)"
  | noDevice => "No such device (os error 19)"
  | nameTooLong => "File name too long (os error 36)"
  | other text => text

/-- Why an object file cannot be had. -/
inductive LoadFault where
  /-- It cannot be opened. -/
  | unopened (fault : FileFault)
  /-- Its contents cannot be looked at. -/
  | unmapped (fault : FileFault)
  /-- Its contents are no object file. -/
  | unparsed (cause : String)
deriving DecidableEq, Repr

/-- The failure of a tool that needs the object file at a path. -/
def LoadFault.failure (path : String) : LoadFault → Failure
  | unopened fault => ⟨s!"failed to open `{path}`", [fault.message]⟩
  | unmapped fault => ⟨s!"failed to mmap `{path}`", [fault.message]⟩
  | unparsed cause => ⟨s!"failed to parse `{path}`", [cause]⟩

/-- What the tools do with files. -/
structure FileSystem (m : Type → Type) where
  /-- The object file at a path. -/
  load : String → m (Except LoadFault ObjectFile)
  /-- Makes a directory, unless it is there already. -/
  createDirectory : String → m (Except FileFault Unit)
  /-- Writes a file, in place of one that is there. -/
  write : String → String → m (Except FileFault Unit)

namespace FileSystem

variable {m : Type → Type} [Monad m]

/-- Makes the first of some directories, each of which is in the next one. The ones after it are
made only if it cannot be made without them. -/
def createWithin (files : FileSystem m) : List String → m (Except FileFault Unit)
  | [] => return .ok ()
  | path :: outer => do
    match ← files.createDirectory path with
    | .error .notFound =>
      match ← files.createWithin outer with
      | .error fault => return .error fault
      | .ok () => files.createDirectory path
    | result => return result

/-- Makes a directory and the ones on the way to it, as far as they are not there. The empty path
asks for nothing. -/
def createDirectories (files : FileSystem m) (path : String) : m (Except FileFault Unit) :=
  if path = "" then return .ok () else files.createWithin (path :: Path.ancestors path)

/-- Writes some files of facts into a directory, telling of each. -/
def writeFiles (files : FileSystem m) (directory : String) :
    List FactFile → m (Except FileFault Unit × Journal)
  | [] => return (.ok (), [])
  | file :: rest => do
    let path := Path.join directory file.relation.fileName
    match ← files.write path file.text with
    | .error fault => return (.error fault, [])
    | .ok () =>
      let (result, notes) ← files.writeFiles directory rest
      return (result, .factsWritten file.count path :: notes)

/-- Writes the files of a set of facts into a directory, which is created if it is not there. -/
def writeFacts (files : FileSystem m) (directory : String) (store : FactStore) :
    m (Except FileFault Unit × Journal) := do
  match ← files.createDirectories directory with
  | .error fault => return (.error fault, [])
  | .ok () => files.writeFiles directory store.files

end FileSystem

end UnwindTables

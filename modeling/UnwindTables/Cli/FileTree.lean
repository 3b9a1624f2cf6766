/-
UnwindTables.Cli.FileTree — files and directories as a value.

* `FileTree` — files, directories, and the directory that relative paths start from.
* `FileTree.locate` — where a path leads.
* `FileTree.fileSystem` — what the tools do with files, done to a tree.
* `FileTree.texts` — the files that hold text, with their paths.
-/
import UnwindTables.Cli.Files
import UnwindTables.ObjectFile.Elf

namespace UnwindTables

/-- A place in a tree, as the names on the way from the root. -/
abbrev Place := List String

/-- What a file holds. -/
inductive FileContents where
  /-- An object file. -/
  | object (file : ObjectFile)
  /-- Some bytes. -/
  | bytes (bytes : List UInt8)
  /-- Text. -/
  | text (text : String)
  /-- Nothing that could be looked at. -/
  | device
deriving DecidableEq, Repr

/-- Files and directories. -/
structure FileTree where
  /-- The files, in the order in which they were made. -/
  files : List (Place × FileContents)
  /-- The directories. The root and the ones on the way to the origin need not be among them. -/
  directories : List Place
  /-- The directory that relative paths start from. -/
  origin : Place
deriving DecidableEq, Repr

namespace FileTree

/-- What there is at a place. -/
inductive Node where
  /-- A directory. -/
  | directory
  /-- A file. -/
  | file (contents : FileContents)
deriving DecidableEq, Repr

/-- What there is at a place, if there is anything. -/
def node? (tree : FileTree) (place : Place) : Option Node :=
  if place.isPrefixOf tree.origin ∨ place ∈ tree.directories then
    some .directory
  else
    (tree.files.lookup place).map .file

/-- The place that is reached by following some names from a place. Empty names and dots stay where
they are, two dots go back, and from the root they stay there. Only a directory can be left, or
stayed in, by a name. -/
def walk (tree : FileTree) : Place → List String → Except FileFault Place
  | place, [] => .ok place
  | place, name :: names =>
    match tree.node? place with
    | none => .error .notFound
    | some (.file _) => .error .notDirectory
    | some .directory =>
      if name = "" ∨ name = "." then walk tree place names
      else if name = ".." then walk tree place.dropLast names
      else if Path.maxNameSize < name.utf8ByteSize then .error .nameTooLong
      else walk tree (place ++ [name]) names

/-- Where the names of a path lead. -/
def follow (tree : FileTree) (path : String) (names : List String) : Except FileFault Place :=
  if path = "" then .error .notFound
  else if Path.maxSize < path.utf8ByteSize then .error .nameTooLong
  else tree.walk (if Path.isAbsolute path then [] else tree.origin) names

/-- Where a path leads, whether or not there is anything. -/
def locate (tree : FileTree) (path : String) : Except FileFault Place :=
  tree.follow path (Path.names path)

/-- The contents as an object file. -/
def objectFile : FileContents → Except LoadFault ObjectFile
  | .object file => .ok file
  | .bytes bytes => (ObjectFile.ofElf bytes).mapError fun fault => .unparsed fault.message
  | .text text =>
    (ObjectFile.ofElf text.toUTF8.toList).mapError fun fault => .unparsed fault.message
  | .device => .error (.unmapped .noDevice)

/-- The object file at a path. -/
def load (tree : FileTree) (path : String) : Except LoadFault ObjectFile :=
  match tree.locate path with
  | .error fault => .error (.unopened fault)
  | .ok place =>
    match tree.node? place with
    | none => .error (.unopened .notFound)
    | some .directory => .error (.unmapped .noDevice)
    | some (.file contents) => objectFile contents

/-- The tree with a directory at a path. Slashes at the end of the path say nothing. -/
def createDirectory (tree : FileTree) (path : String) : Except FileFault FileTree :=
  match tree.follow path (Path.directoryNames path) with
  | .error fault => .error fault
  | .ok place =>
    match tree.node? place with
    | some .directory => .ok tree
    | some (.file _) => .error .alreadyExists
    | none => .ok { tree with directories := tree.directories ++ [place] }

/-- The tree with a file in place of the one that is there. -/
def put (tree : FileTree) (place : Place) (contents : FileContents) : FileTree :=
  { tree with files := tree.files.filter (·.1 ≠ place) ++ [(place, contents)] }

/-- The tree with a text file. -/
def write (tree : FileTree) (path text : String) : Except FileFault FileTree :=
  match tree.locate path with
  | .error fault => .error fault
  | .ok place =>
    match tree.node? place with
    | some .directory => .error .isDirectory
    | _ => .ok (tree.put place (.text text))

/-- A change of the tree that may fail, as a step of a run. -/
def change (f : FileTree → Except FileFault FileTree) : StateM FileTree (Except FileFault Unit) :=
  fun tree =>
    match f tree with
    | .ok changed => (.ok (), changed)
    | .error fault => (.error fault, tree)

/-- What the tools do with files, done to a tree. -/
def fileSystem : FileSystem (StateM FileTree) where
  load := fun path tree => (tree.load path, tree)
  createDirectory := fun path => change fun tree => tree.createDirectory path
  write := fun path text => change fun tree => tree.write path text

/-- The files below the origin that hold text, with their paths. -/
def texts (tree : FileTree) : List (String × String) :=
  tree.files.filterMap fun
    | (place, .text text) =>
      if tree.origin.isPrefixOf place then
        some ("/".intercalate (place.drop tree.origin.length), text)
      else
        none
    | _ => none

end FileTree

end UnwindTables

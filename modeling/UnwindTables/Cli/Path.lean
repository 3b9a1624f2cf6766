/-
UnwindTables.Cli.Path — the text of a path.

* `Path.names` — the names between the slashes, and `Path.directoryNames`, the ones that matter
  where a directory is meant.
* `Path.join` — the path of a file in a directory.
* `Path.ancestors` — the directories that a path goes through.
* `Path.maxSize`, `Path.maxNameSize` — how long a path and a name may be.
-/
import UnwindTables.Text.Pieces

namespace UnwindTables.Path

/-- The number of bytes that a path may have. -/
def maxSize : Nat := 4095

/-- The number of bytes that a name in a path may have. -/
def maxNameSize : Nat := 255

/-- Whether a path starts from the root. -/
def isAbsolute (path : String) : Bool := path.toList.head? = some '/'

/-- The names between the slashes of a path. -/
def names (path : String) : List String := Text.pieces '/' path

/-- The names in the path of a directory, which may end in slashes that say nothing. -/
def directoryNames (path : String) : List String :=
  ((names path).reverse.dropWhile (· = "")).reverse

/-- Whether a name leads away from the directory that it is looked up in. -/
def isStep (name : String) : Bool := name ≠ "" && name ≠ "."

/-- The path of a file in a directory. -/
def join (directory file : String) : String :=
  if directory = "" ∨ directory.toList.getLast? = some '/' then directory ++ file
  else directory ++ "/" ++ file

/-- The beginnings of a path that end in a step, the shortest first. -/
def stages (path : String) : List String :=
  let names := names path
  let beginnings := (List.range names.length).map fun count => names.take (count + 1)
  (beginnings.filter fun beginning => beginning.getLast?.any isStep).map ("/".intercalate ·)

/-- The directories that a path goes through, the last one first. The longest beginning that ends
in a step is none of them: what follows it stays where it is, so it leads to where the path
leads. -/
def ancestors (path : String) : List String := (stages path).dropLast.reverse

end UnwindTables.Path

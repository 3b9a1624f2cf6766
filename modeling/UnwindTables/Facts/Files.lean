/-
UnwindTables.Facts.Files — facts as files.

* `FactFile` — the name and the contents of the file of one relation: a line for every tuple.
* `FactStore.files` — the files of a set, one for every relation, also for one without tuples.
-/
import UnwindTables.Facts.Store

namespace UnwindTables

/-- The name of the file that holds the tuples of a relation. -/
def Relation.fileName (relation : Relation) : String := relation.name ++ ".facts"

/-- The contents of the file of a relation. -/
def FactStore.fileText (store : FactStore) (relation : Relation) : String :=
  String.join ((store.tuples relation).map fun tuple => tuple.text ++ "\n")

/-- The file of one relation. -/
structure FactFile where
  /-- What its facts are about. -/
  relation : Relation
  /-- Its contents. -/
  text : String
  /-- How many facts it holds. -/
  count : Nat
deriving DecidableEq, Repr

/-- The files of a set, in the order of the relations. -/
def FactStore.files (store : FactStore) : List FactFile :=
  Relation.all.map fun relation => ⟨relation, store.fileText relation, store.count relation⟩

end UnwindTables

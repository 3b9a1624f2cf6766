/-
UnwindTables.Facts.Store — a set of facts.

* `Fact` — a tuple of a relation; `Fact.compare` is the order of facts.
* `FactStore` — facts in ascending order, each of them once; `FactStore.toList` are all of them.
* `FactStore.insert`, `insertAll`, `insertChecked`, `contains`, `tuples`, `count`, `size`, `isEmpty`.

A store does not remember the order of insertions, so two stores of the same facts are equal.
-/
import UnwindTables.Facts.Tuple

namespace UnwindTables

/-- A tuple of a relation. -/
structure Fact where
  /-- What the fact is about. -/
  relation : Relation
  /-- Its fields. -/
  tuple : Tuple
deriving DecidableEq, Repr

/-- Facts are in the order of their relations, and those of one relation in that of their fields. -/
def Fact.compare (a b : Fact) : Ordering :=
  (Ord.compare a.relation.position b.relation.position).then (a.tuple.compare b.tuple)

/-- A set of facts. -/
structure FactStore where
  /-- The facts, in ascending order. -/
  facts : List Fact
deriving DecidableEq, Repr

namespace FactStore

/-- The set without facts. -/
def empty : FactStore := ⟨[]⟩

/-- The facts in ascending order. -/
def toList (store : FactStore) : List Fact := store.facts

/-- Facts in ascending order with one more, unless it is there already. -/
def insertSorted (fact : Fact) : List Fact → List Fact
  | [] => [fact]
  | other :: facts =>
    match fact.compare other with
    | .lt => fact :: other :: facts
    | .eq => other :: facts
    | .gt => other :: insertSorted fact facts

/-- The set with one more fact. -/
def insert (store : FactStore) (fact : Fact) : FactStore := ⟨insertSorted fact store.facts⟩

/-- The set with some more facts. -/
def insertAll (store : FactStore) (facts : List Fact) : FactStore := facts.foldl insert store

/-- The set with some more facts, each of which has to have as many fields as its relation has
columns. -/
def insertChecked (store : FactStore) : List Fact → Except ArityMismatch FactStore
  | [] => .ok store
  | fact :: facts => do
    let tuple ← Tuple.ofFields fact.relation fact.tuple.fields
    (store.insert ⟨fact.relation, tuple⟩).insertChecked facts

/-- Whether a fact is in the set. -/
def contains (store : FactStore) (fact : Fact) : Bool := store.facts.contains fact

/-- The tuples of a relation, in ascending order. -/
def tuples (store : FactStore) (relation : Relation) : List Tuple :=
  (store.facts.filter fun fact => fact.relation == relation).map Fact.tuple

/-- How many tuples a relation has. -/
def count (store : FactStore) (relation : Relation) : Nat := (store.tuples relation).length

/-- How many facts there are. -/
def size (store : FactStore) : Nat := store.facts.length

/-- Whether there are no facts. -/
def isEmpty (store : FactStore) : Bool := store.size == 0

end FactStore

end UnwindTables

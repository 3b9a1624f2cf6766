/-
UnwindTables.Facts.Tuple — the fields of one fact.

* `Field` — a number without a sign, a number with one, or a symbol.
* `Tuple` — fields in order; `Tuple.text` is a fact as a line of text.
* `Tuple.compare` — the order of facts: field by field, and a tuple before its continuations.
* `Tuple.ofFields` — a tuple for a relation, which has to have as many fields as its columns.
-/
import UnwindTables.Facts.Relation

namespace UnwindTables

/-- One field of a fact. -/
inductive Field where
  /-- A number without a sign. -/
  | unsigned (value : Nat)
  /-- A number with a sign. -/
  | signed (value : Int)
  /-- A word. -/
  | symbol (value : String)
deriving DecidableEq, Repr

namespace Field

/-- A field as text. -/
def text : Field → String
  | unsigned value => toString value
  | signed value => toString value
  | symbol value => value

/-- Numbers without a sign come first, then numbers with one, then symbols; fields of one kind are
in the order of their values. -/
def compare : Field → Field → Ordering
  | unsigned a, unsigned b => Ord.compare a b
  | unsigned _, _ => .lt
  | signed _, unsigned _ => .gt
  | signed a, signed b => Ord.compare a b
  | signed _, symbol _ => .lt
  | symbol a, symbol b => Ord.compare a b
  | symbol _, _ => .gt

end Field

/-- The fields of one fact. -/
structure Tuple where
  /-- The fields, in order. -/
  fields : List Field
deriving DecidableEq, Repr

/-- A tuple does not have as many fields as its relation. -/
structure ArityMismatch where
  /-- The relation. -/
  relation : Relation
  /-- How many fields there are. -/
  found : Nat
deriving DecidableEq, Repr

/-- The text of the fault. -/
def ArityMismatch.message (mismatch : ArityMismatch) : String :=
  s!"relation `{mismatch.relation.name}` has {mismatch.relation.arity} fields but the tuple had " ++
    toString mismatch.found

namespace Tuple

/-- The order of two lists of fields. -/
def compareFields : List Field → List Field → Ordering
  | [], [] => .eq
  | [], _ :: _ => .lt
  | _ :: _, [] => .gt
  | a :: as, b :: bs => (a.compare b).then (compareFields as bs)

/-- The order of two tuples. -/
def compare (a b : Tuple) : Ordering := compareFields a.fields b.fields

/-- How many fields there are. -/
def size (tuple : Tuple) : Nat := tuple.fields.length

/-- A tuple as a line of text, without the end of the line. -/
def text (tuple : Tuple) : String := "\t".intercalate (tuple.fields.map Field.text)

/-- The tuple of some fields, for a relation. -/
def ofFields (relation : Relation) (fields : List Field) : Except ArityMismatch Tuple :=
  if fields.length = relation.arity then .ok ⟨fields⟩ else .error ⟨relation, fields.length⟩

end Tuple

end UnwindTables

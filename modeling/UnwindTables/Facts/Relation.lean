/-
UnwindTables.Facts.Relation — the relations that facts belong to.

* `Relation` — what a fact is about; `Relation.name` and `Relation.columns` are the words for it.
-/

namespace UnwindTables

/-- What a fact is about. -/
inductive Relation where
  /-- The fields of a CIE. -/
  | cieEntry
  /-- How the addresses of functions are stored that a CIE goes with. -/
  | cieEncoding
  /-- The personality routine of a CIE. -/
  | ciePersonality
  /-- A pointer that an FDE stores. -/
  | fdePointerLocations
  /-- The code that an FDE describes. -/
  | fdeEntry
deriving DecidableEq, Repr

namespace Relation

/-- Every relation, in order. -/
def all : List Relation := [cieEntry, cieEncoding, ciePersonality, fdePointerLocations, fdeEntry]

/-- The place of a relation among all of them. -/
def position : Relation → Nat
  | cieEntry => 0
  | cieEncoding => 1
  | ciePersonality => 2
  | fdePointerLocations => 3
  | fdeEntry => 4

/-- The name of a relation. -/
def name : Relation → String
  | cieEntry => "cie_entry"
  | cieEncoding => "cie_encoding"
  | ciePersonality => "cie_personality"
  | fdePointerLocations => "fde_pointer_locations"
  | fdeEntry => "fde_entry"

/-- The names of the fields of a relation. -/
def columns : Relation → List String
  | cieEntry =>
    ["cie_offset", "version", "code_alignment", "data_alignment", "return_address_register"]
  | cieEncoding => ["cie_offset", "encoding_format", "encoding_modifier"]
  | ciePersonality => ["cie_offset", "personality_address"]
  | fdePointerLocations => ["fde_offset", "cie_offset", "pointer_kind", "address"]
  | fdeEntry => ["fde_offset", "cie_offset", "start_address", "end_address"]

/-- How many fields the facts of a relation have. -/
def arity (relation : Relation) : Nat := relation.columns.length

theorem all_getElem?_position (relation : Relation) :
    all[relation.position]? = some relation := by
  cases relation <;> rfl

end Relation

end UnwindTables

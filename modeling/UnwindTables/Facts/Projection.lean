/-
UnwindTables.Facts.Projection — the facts that a table states.

* `Cie.facts`, `Fde.facts` — the facts of one record. A field that is absent states nothing.
* `Table.facts` — the facts of all records; `Table.project` adds them to a set.
* `Table.projectChecked` — the same, where every fact has to have as many fields as its relation has
  columns.
-/
import UnwindTables.Facts.Store
import UnwindTables.Table

namespace UnwindTables

/-- An address, or another number of 64 bits, as a field. -/
def Field.word (value : UInt64) : Field := .unsigned value.toNat

namespace Cie

/-- The fields of the CIE itself. -/
def entryTuple (cie : Cie) : Tuple :=
  ⟨[.unsigned cie.offset, .unsigned cie.version.number.toNat, .word cie.codeAlignment,
    .signed cie.dataAlignment.toInt, .word cie.returnAddressRegister]⟩

/-- How the CIE stores the addresses of functions: the format apart from the rest of the byte. -/
def encodingTuple? (cie : Cie) : Option Tuple :=
  cie.declared.fdeEncoding.map fun byte =>
    ⟨[.unsigned cie.offset, .unsigned (byte &&& 0x0f).toNat, .unsigned (byte &&& 0xf0).toNat]⟩

/-- The personality routine of the CIE. -/
def personalityTuple? (cie : Cie) : Option Tuple :=
  cie.declared.personality.map fun pointer =>
    ⟨[.unsigned cie.offset, .word pointer.address]⟩

/-- The facts that the CIE states. -/
def facts (cie : Cie) : List Fact :=
  ⟨.cieEntry, cie.entryTuple⟩ ::
    (cie.encodingTuple?.toList.map (⟨.cieEncoding, ·⟩) ++
      cie.personalityTuple?.toList.map (⟨.ciePersonality, ·⟩))

end Cie

namespace Fde

/-- The code that the FDE describes. -/
def entryTuple (fde : Fde) : Tuple :=
  ⟨[.unsigned fde.offset, .unsigned fde.cie, .word fde.pcBegin, .word fde.pcEnd]⟩

/-- The word for a pointer to language-specific data. -/
def lsdaKind : String := "lsda"

/-- The language-specific data of the FDE. -/
def pointerTuple? (fde : Fde) : Option Tuple :=
  fde.lsda.map fun pointer =>
    ⟨[.unsigned fde.offset, .unsigned fde.cie, .symbol lsdaKind, .word pointer.address]⟩

/-- The facts that the FDE states. -/
def facts (fde : Fde) : List Fact :=
  ⟨.fdeEntry, fde.entryTuple⟩ :: fde.pointerTuple?.toList.map (⟨.fdePointerLocations, ·⟩)

end Fde

namespace Table

/-- The facts that the records of a table state. -/
def facts (table : Table) : List Fact :=
  table.cies.flatMap Cie.facts ++ table.fdes.flatMap Fde.facts

/-- A set with the facts of a table added. -/
def project (table : Table) (store : FactStore) : FactStore := store.insertAll table.facts

/-- The same with each fact checked against the columns of its relation. -/
def projectChecked (table : Table) (store : FactStore) : Except ArityMismatch FactStore :=
  store.insertChecked table.facts

end Table

end UnwindTables

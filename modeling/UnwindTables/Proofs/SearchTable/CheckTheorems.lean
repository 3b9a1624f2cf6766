/-
UnwindTables.Proofs.SearchTable.CheckTheorems — the check of a search table reports exactly what is wrong.

An entry of a search table is right about a table if there is an FDE where the entry says, and it starts where
the entry says. The check goes through the entries one by one, looks each of them up in the table, and writes
what is wrong into the diagnostics of the same table before it goes on to the next one.

`SearchTable.verify_exact` says what this comes to: one diagnostic for each entry that is wrong about the table
as it was before the check, in the order of the entries and behind the diagnostics that were there, and nothing
else. A check can be repeated, with any other checks in between, and finds as many entries wrong as before.

## How the proof goes

A turn of the check changes no record (`SearchTable.checkEntry_sameRecords`), and whether an entry is right
depends on nothing but the records (`SearchTable.Names.congr`). So every entry is asked about the same records,
whatever has been reported before it, which is the induction of `SearchTable.foldl_checkEntry`.
-/
import UnwindTables.Proofs.Facts.ProjectionTheorems
import UnwindTables.Proofs.Table.ExtentTheorems

namespace UnwindTables

/-- Two tables have the same records. They may differ in what is reported. -/
structure Table.SameRecords (table other : Table) : Prop where
  cies : table.cies = other.cies
  fdes : table.fdes = other.fdes

namespace Table.SameRecords

variable {table other third : Table}

theorem refl (table : Table) : table.SameRecords table := ⟨rfl, rfl⟩

theorem trans (h : table.SameRecords other) (h' : other.SameRecords third) : table.SameRecords third :=
  ⟨h.cies.trans h'.cies, h.fdes.trans h'.fdes⟩

end Table.SameRecords

namespace SearchTable

variable {table other : Table} {ehFrame : UInt64} {entry : SearchEntry}

/-! ## 1. Entries that are right -/

/-- An entry is right about a table of a section that is loaded at `ehFrame`: there is an FDE at the section
offset of the entry's address, and it starts where the entry says. -/
def Names (table : Table) (ehFrame : UInt64) (entry : SearchEntry) : Prop :=
  ∃ fde, table.fde? (entry.fdeAddress - ehFrame).toNat = some fde ∧
    fde.pcBegin = entry.initialLocation

theorem matchesFde_eq_true_iff : matchesFde table ehFrame entry = true ↔ Names table ehFrame entry := by
  simp [matchesFde, Names, fdeOffset, Option.any_eq_true]

instance (table : Table) (ehFrame : UInt64) (entry : SearchEntry) :
    Decidable (Names table ehFrame entry) :=
  decidable_of_iff _ matchesFde_eq_true_iff

/-- Only the records say whether an entry is right. -/
theorem Names.congr (h : table.SameRecords other) :
    Names table ehFrame entry ↔ Names other ehFrame entry := by
  simp only [Names, Table.fde?, h.fdes]

/-- In a table that has no two FDEs at one section offset, an entry is right about any FDE that it fits. -/
theorem names_iff_mem (h : (table.fdes.map Fde.offset).Pairwise (· < ·)) :
    Names table ehFrame entry ↔
      ∃ fde ∈ table.fdes, fde.offset = (entry.fdeAddress - ehFrame).toNat ∧
        fde.pcBegin = entry.initialLocation := by
  simp only [Names, Table.fde?, Table.find?_key_eq_some_iff h, and_assoc]

/-! ## 2. The check -/

/-- What is reported for an entry that is wrong. -/
def report (ehFrame : UInt64) (entry : SearchEntry) : Diagnostic where
  offset := (entry.fdeAddress - ehFrame).toNat
  fault := .staleSearchEntry entry.initialLocation entry.fdeAddress

/-- One turn of the check: an entry that is wrong about the table is reported in it, and counted. -/
def checkEntry (ehFrame : UInt64) (checked : Table × Nat) (entry : SearchEntry) : Table × Nat :=
  if Names checked.1 ehFrame entry then
    checked
  else
    ({ checked.1 with diagnostics := checked.1.diagnostics ++ [report ehFrame entry] }, checked.2 + 1)

/-- A turn of the check changes no record. -/
theorem checkEntry_sameRecords (ehFrame : UInt64) (checked : Table × Nat) (entry : SearchEntry) :
    (checkEntry ehFrame checked entry).1.SameRecords checked.1 := by
  unfold checkEntry
  split <;> exact ⟨rfl, rfl⟩

/-- The entries that are wrong about a table, in order. -/
def wrongEntries (entries : List SearchEntry) (table : Table) (ehFrame : UInt64) : List SearchEntry :=
  entries.filter fun entry => ¬ Names table ehFrame entry

theorem wrongEntries_congr (h : table.SameRecords other) (entries : List SearchEntry) :
    wrongEntries entries table ehFrame = wrongEntries entries other ehFrame := by
  simp only [wrongEntries, Names.congr h]

/-- **The entries are checked one by one, and each is asked about the records as they were at first.** -/
theorem foldl_checkEntry (entries : List SearchEntry) (table : Table) (ehFrame : UInt64) (count : Nat) :
    entries.foldl (checkEntry ehFrame) (table, count) =
      ({ table with diagnostics :=
          table.diagnostics ++ (wrongEntries entries table ehFrame).map (report ehFrame) },
        count + (wrongEntries entries table ehFrame).length) := by
  induction entries generalizing table count with
  | nil => simp [wrongEntries]
  | cons entry entries ih =>
      have hsame := checkEntry_sameRecords ehFrame (table, count) entry
      rw [List.foldl_cons, ih, wrongEntries_congr hsame]
      by_cases hright : Names table ehFrame entry
      · simp [checkEntry, wrongEntries, hright]
      · simp [checkEntry, wrongEntries, hright, Nat.add_assoc, Nat.add_comm 1]

theorem stale_eq (searchTable : SearchTable) (table : Table) (ehFrame : UInt64) :
    searchTable.stale table ehFrame =
      (wrongEntries searchTable.entries table ehFrame).map (report ehFrame) := by
  have hwrong : (fun entry => !matchesFde table ehFrame entry) =
      fun entry => decide (¬ Names table ehFrame entry) := by
    funext entry
    simp [← matchesFde_eq_true_iff]
  rw [stale, wrongEntries, hwrong]
  rfl

/-- Checking a search table is checking its entries one by one. -/
theorem verify_eq_foldl (searchTable : SearchTable) (table : Table) (ehFrame : UInt64) :
    searchTable.verify table ehFrame = searchTable.entries.foldl (checkEntry ehFrame) (table, 0) := by
  simp [foldl_checkEntry, verify, stale_eq]

/-! ## 3. Checks one after the other -/

/-- A table after some checks, each of a search table against a section that is loaded somewhere. -/
def verifyAll (checks : List (SearchTable × UInt64)) (table : Table) : Table :=
  checks.foldl (fun table check => (check.1.verify table check.2).1) table

theorem verifyAll_sameRecords (checks : List (SearchTable × UInt64)) (table : Table) :
    (verifyAll checks table).SameRecords table := by
  induction checks generalizing table with
  | nil => exact .refl table
  | cons check checks ih => exact (ih (check.1.verify table check.2).1).trans ⟨rfl, rfl⟩

/-- **A check reports exactly the entries that are wrong, and changes nothing else.** It is the same as checking
the entries one by one against the table that is being reported in. It reports those that are wrong about the
table as it was, in order and behind what had been reported, and leaves every record as it is; so the same check
finds as many of them after any other checks. Where a table has no two FDEs at one section offset, to be right
is to fit one of its FDEs. -/
theorem verify_exact (searchTable : SearchTable) (table : Table) (ehFrame : UInt64) :
    let checked := searchTable.verify table ehFrame
    let wrong := searchTable.entries.filter fun entry => ¬ Names table ehFrame entry
    checked = searchTable.entries.foldl (checkEntry ehFrame) (table, 0) ∧
    checked.2 = wrong.length ∧
    checked.1.diagnostics = table.diagnostics ++ wrong.map (report ehFrame) ∧
    checked.1.cies = table.cies ∧ checked.1.fdes = table.fdes ∧
    (∀ checks, (searchTable.verify (verifyAll checks checked.1) ehFrame).2 = checked.2) ∧
    ((table.fdes.map Fde.offset).Pairwise (· < ·) →
      ∀ entry, Names table ehFrame entry ↔
        ∃ fde ∈ table.fdes, fde.offset = (entry.fdeAddress - ehFrame).toNat ∧
          fde.pcBegin = entry.initialLocation) := by
  intro checked wrong
  have hchecked : checked = _ := verify_eq_foldl searchTable table ehFrame
  have hcount : checked.2 = wrong.length := by
    rw [hchecked, foldl_checkEntry]
    exact Nat.zero_add _
  refine ⟨hchecked, hcount, ?_, rfl, rfl, ?_, fun h _ => names_iff_mem h⟩
  · rw [hchecked, foldl_checkEntry]
    rfl
  · intro checks
    have hsame : (verifyAll checks checked.1).SameRecords table :=
      (verifyAll_sameRecords checks checked.1).trans ⟨rfl, rfl⟩
    rw [verify_eq_foldl, foldl_checkEntry, wrongEntries_congr hsame, hcount]
    exact Nat.zero_add _

/-- Entries out of order: one twice, one that is right, and one for an address in front of the section. -/
def strayHeader : SearchTable where
  version := 1
  ehFramePointer := ⟨0x1000, 0x1000, false⟩
  entries := [⟨0x3000, 0x101c⟩, ⟨0x2024, 0x101c⟩, ⟨0x2024, 0xff0⟩, ⟨0x3000, 0x101c⟩]

theorem verify_exact_strayHeader :
    let checked := strayHeader.verify Table.handlerTable 0x1000
    checked.2 = 3 ∧
    checked.1.diagnostics = [⟨28, .staleSearchEntry 0x3000 0x101c⟩,
      ⟨0xfffffffffffffff0, .staleSearchEntry 0x2024 0xff0⟩, ⟨28, .staleSearchEntry 0x3000 0x101c⟩] ∧
    (∀ checks, (strayHeader.verify (verifyAll checks checked.1) 0x1000).2 = 3) ∧
    (Table.handlerTable.fdes.map Fde.offset).Pairwise (· < ·) ∧
    ∃ fde ∈ Table.handlerTable.fdes, fde.offset = 28 ∧ fde.pcBegin = 0x2024 := by
  intro checked
  obtain ⟨-, -, -, -, -, hagain, hfits⟩ := verify_exact strayHeader Table.handlerTable 0x1000
  have hcount : checked.2 = 3 := by decide
  have hpairwise : (Table.handlerTable.fdes.map Fde.offset).Pairwise (· < ·) := by decide
  have hright : Names Table.handlerTable 0x1000 ⟨0x2024, 0x101c⟩ := by decide
  refine ⟨hcount, by decide, ?_, hpairwise, (hfits hpairwise ⟨0x2024, 0x101c⟩).mp hright⟩
  intro checks
  exact (hagain checks).trans hcount

end SearchTable

end UnwindTables

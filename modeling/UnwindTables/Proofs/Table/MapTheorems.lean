/-
UnwindTables.Proofs.Table.MapTheorems — a table is what is collected in maps, record by record.

A `Table` holds lists, an `Entry` says at most one thing that is wrong with its record, and `Cie.read`
stops where nothing more of a block can be read. A loop that goes over the records once has none of this
from the start. It puts what it reads into maps, under the section offset of the record; it looks for a
CIE in the map that it has so far; it follows every augmentation string to its end; and it collects every
fault that it is given. `SectionMaps.collect` is that loop, and `SectionMaps.collect_eq` says that it
comes to the same.

## How the proof goes

A reader that follows its string to the end reads the same CIE and reports the fault that ended the
reading (`Cie.readToEnd_eq`, from `AugmentationLoop.endsAs_read`). The invariant of the loop is that its
maps are those of the table of the entries so far. A record is behind all of these entries, so what is put
under its offset replaces nothing and comes last (`OffsetMap.insert_ofKeyed`), and the CIE it refers to is
found from either end. This gives the step (`SectionMaps.add_ofEntries`) and, by induction over the
records, the loop (`SectionMaps.addAll_ofEntries`).
-/
import UnwindTables.Proofs.Augmentation.LoopTheorems
import UnwindTables.Proofs.Table.TwoPassTheorems

namespace UnwindTables

/-! ## 1. Maps from section offsets -/

/-- A map from section offsets. -/
structure OffsetMap (α : Type) where
  /-- The offsets with their values, in ascending order. -/
  items : List (Nat × α)

namespace OffsetMap

variable {α : Type}

/-- The map without values. -/
def empty : OffsetMap α := ⟨[]⟩

/-- Items in ascending order with a value at an offset, in place of the value that was there. -/
def insertSorted (offset : Nat) (value : α) : List (Nat × α) → List (Nat × α)
  | [] => [(offset, value)]
  | item :: items =>
    if offset < item.1 then (offset, value) :: item :: items
    else if offset = item.1 then (offset, value) :: items
    else item :: insertSorted offset value items

/-- The map with a value at an offset. -/
def insert (map : OffsetMap α) (offset : Nat) (value : α) : OffsetMap α :=
  ⟨insertSorted offset value map.items⟩

/-- The value at an offset. -/
def get? (map : OffsetMap α) (offset : Nat) : Option α :=
  (map.items.find? fun item => item.1 == offset).map Prod.snd

/-- The values in the order of their offsets. -/
def values (map : OffsetMap α) : List α := map.items.map Prod.snd

/-- Some values, each under its key. -/
def ofKeyed (key : α → Nat) (values : List α) : OffsetMap α :=
  ⟨values.map fun value => (key value, value)⟩

variable {key : α → Nat}

/-- What was put at an offset is found there, and nothing else is changed. -/
theorem get?_insert (map : OffsetMap α) (offset : Nat) (value : α) (n : Nat) :
    (map.insert offset value).get? n = if n = offset then some value else map.get? n := by
  obtain ⟨items⟩ := map
  simp only [insert, get?]
  induction items with
  | nil =>
      simp only [insertSorted, List.find?_cons, List.find?_nil]
      grind
  | cons item items ih =>
      simp only [insertSorted]
      grind

@[simp] theorem values_ofKeyed (values : List α) : (ofKeyed key values).values = values := by
  simp [OffsetMap.values, ofKeyed, Function.comp_def]

@[simp] theorem get?_ofKeyed (values : List α) (offset : Nat) :
    (ofKeyed key values).get? offset = values.find? fun value => key value == offset := by
  simp [get?, ofKeyed, List.find?_map, Function.comp_def]

/-- A value behind all others comes last. -/
theorem insert_ofKeyed {values : List α} {value : α} (h : ∀ other ∈ values, key other < key value) :
    (ofKeyed key values).insert (key value) value = ofKeyed key (values ++ [value]) := by
  simp only [insert, ofKeyed, OffsetMap.mk.injEq]
  induction values with
  | nil => rfl
  | cons other values ih =>
      have hlt := h other List.mem_cons_self
      rw [List.map_cons, insertSorted, if_neg (by omega), if_neg (by omega),
        ih fun later hlater => h later (List.mem_cons_of_mem _ hlater)]
      rfl

/-- The same with a value that may not be there. -/
theorem elim_insert_ofKeyed {values : List α} {value? : Option α}
    (h : ∀ value ∈ value?, ∀ other ∈ values, key other < key value) :
    (value?.elim (ofKeyed key values) fun value => (ofKeyed key values).insert (key value) value) =
      ofKeyed key (values ++ value?.toList) := by
  cases value? with
  | none => rw [Option.elim_none, Option.toList_none, List.append_nil]
  | some value => exact insert_ofKeyed (h value rfl)

end OffsetMap

/-! ## 2. A CIE whose string is followed to its end -/

/-- The CIE that a record holds and the faults that were met in its augmentation. -/
def Cie.readToEnd (target : Target) (record : Record) : Except Fault (Cie × List Fault) := do
  let (number, rest) ← record.body.byte
  match CieVersion.ofNumber? number with
  | none => throw (.unsupportedCieVersion record.offset number)
  | some version =>
    let (augmentation, rest) ← rest.text
    let (codeAlignment, rest) ← rest.unsigned
    let (dataAlignment, rest) ← rest.signed
    let (returnAddressRegister, rest) ← readRegister version rest
    let loop := AugmentationLoop.follow target augmentation (.start rest)
    return (
      { offset := record.offset
        format := record.format
        length := record.length
        version
        augmentation
        codeAlignment
        dataAlignment
        returnAddressRegister
        declared := loop.finish
        instructions := ⟨loop.rest.offset, record.stop⟩ },
      loop.faults)

theorem Cie.readToEnd_eq (target : Target) (record : Record) :
    readToEnd target record =
      (fun (cie, ending) => (cie, ending.fault?.toList)) <$> Cie.read target record := by
  unfold readToEnd Cie.read
  rw [map_bind]
  refine congrArg (record.body.byte >>= ·) (funext fun (number, rest) => ?_)
  simp only
  cases CieVersion.ofNumber? number with
  | none => rfl
  | some version =>
      have hloop : ∀ codes window, (AugmentationLoop.follow target codes (.start window)).EndsAs
          (Declared.read target codes window) := AugmentationLoop.endsAs_read
      simp only [map_bind, map_pure, (hloop _ _).declared, (hloop _ _).faults, (hloop _ _).rest]

/-! ## 3. The loop over the records -/

theorem filterMap_singleton {α β : Type} (pick : α → Option β) (a : α) :
    [a].filterMap pick = (pick a).toList := by
  cases h : pick a <;> simp [h]

/-- What has been collected from the records so far. -/
structure SectionMaps where
  /-- The CIEs. -/
  cies : OffsetMap Cie
  /-- The FDEs. -/
  fdes : OffsetMap Fde
  /-- The faults that were recovered from, in the order in which they were met. -/
  diagnostics : List Diagnostic

namespace SectionMaps

/-- Nothing has been collected. -/
def empty : SectionMaps := ⟨.empty, .empty, []⟩

/-- The maps with some faults of the record at an offset. -/
def report (maps : SectionMaps) (offset : Nat) (faults : List Fault) : SectionMaps :=
  { maps with diagnostics := maps.diagnostics ++ faults.map (Diagnostic.mk offset) }

/-- The maps after one more record. -/
def add (target : Target) (image : Option Image) (maps : SectionMaps) (record : Record) : SectionMaps :=
  match record.kind with
  | .cie =>
    match Cie.readToEnd target record with
    | .ok (cie, faults) =>
      { maps.report record.offset faults with cies := maps.cies.insert record.offset cie }
    | .error fault => maps.report record.offset [fault.withinRecord]
  | .fde owner =>
    match maps.cies.get? owner with
    | none => maps.report record.offset [.danglingReference record.offset owner]
    | some cie =>
      match Fde.read target image cie record with
      | .ok (fde, problem) =>
        { maps.report record.offset problem.toList with fdes := maps.fdes.insert record.offset fde }
      | .error fault => maps.report record.offset [fault.withinRecord]

/-- The maps after some more records. -/
def addAll (target : Target) (image : Option Image) (maps : SectionMaps) (records : List Record) :
    SectionMaps :=
  records.foldl (add target image) maps

/-- The maps of a section, or the fault that ends its records. -/
def collect (target : Target) (image : Option Image) (bytes : List UInt8) : Except Fault SectionMaps :=
  match (Framing.ofSection target.order bytes).fault with
  | some fault => .error fault
  | none => .ok (addAll target image empty (Framing.ofSection target.order bytes).records)

/-- The maps of a table. -/
def ofTable (table : Table) : SectionMaps :=
  ⟨.ofKeyed Cie.offset table.cies, .ofKeyed Fde.offset table.fdes, table.diagnostics⟩

/-- The maps with what became of one more record. -/
def enter (maps : SectionMaps) (entry : Entry) : SectionMaps where
  cies := entry.cie?.elim maps.cies fun cie => maps.cies.insert cie.offset cie
  fdes := entry.fde?.elim maps.fdes fun fde => maps.fdes.insert fde.offset fde
  diagnostics := maps.diagnostics ++ entry.diagnostic?.toList

variable {target : Target} {image : Option Image} {maps : SectionMaps} {seen : List Cie}
  {entries : List Entry} {record : Record} {records : List Record}

/-- A record adds what becomes of it, where the map has the CIEs that were seen. -/
theorem add_eq_enter
    (h : ∀ owner, maps.cies.get? owner = seen.find? fun cie => cie.offset == owner) :
    add target image maps record = maps.enter (Entry.read target image seen record) := by
  unfold add Entry.read
  cases record.kind with
  | cie =>
      rw [Cie.readToEnd_eq]
      cases hread : Cie.read target record with
      | error fault => rfl
      | ok result =>
          obtain ⟨_, _, -, -, hoffset, -⟩ := Cie.read_eq_ok_iff.mp hread
          simp only [Functor.map, Except.map, ← hoffset]
          cases result.2 <;> rfl
  | fde owner =>
      simp only [h owner]
      cases seen.find? fun cie => cie.offset == owner with
      | none => rfl
      | some cie =>
          cases hread : Fde.read target image cie record with
          | error fault =>
              simp only [hread]
              rfl
          | ok result =>
              obtain ⟨_, _, _, _, _, _, _, -, -, -, -, -, -, hfde⟩ := Fde.read_eq_ok hread
              have hoffset : result.1.offset = record.offset := by rw [hfde]
              simp only [hread, ← hoffset]
              cases result.2 <;> rfl

/-- What became of a record behind all others comes last in the maps. -/
theorem enter_ofEntries {entry : Entry} (h : ∀ other ∈ entries, other.offset < entry.offset) :
    (ofTable (.ofEntries entries)).enter entry = ofTable (.ofEntries (entries ++ [entry])) := by
  have hcies : ∀ cie ∈ entry.cie?, ∀ other ∈ (Table.ofEntries entries).cies,
      other.offset < cie.offset := by
    intro cie hc other hother
    obtain ⟨ending, he⟩ := Table.mem_cies.mp hother
    rw [Entry.offset_of_cie? hc]
    exact h _ he
  have hfdes : ∀ fde ∈ entry.fde?, ∀ other ∈ (Table.ofEntries entries).fdes,
      other.offset < fde.offset := by
    intro fde hf other hother
    obtain ⟨problem, he⟩ := Table.mem_fdes.mp hother
    rw [Entry.offset_of_fde? hf]
    exact h _ he
  rw [enter, ofTable, OffsetMap.elim_insert_ofKeyed hcies, OffsetMap.elim_insert_ofKeyed hfdes]
  simp only [ofTable, Table.ofEntries, List.filterMap_append, filterMap_singleton]

/-- One more record, behind the others. -/
theorem add_ofEntries (hincrease : (entries.map Entry.offset).Pairwise (· < ·))
    (h : ∀ other ∈ entries, other.offset < record.offset) :
    add target image (ofTable (.ofEntries entries)) record =
      ofTable (.ofEntries
        (entries ++ [Entry.read target image (entries.filterMap Entry.cie?).reverse record])) := by
  have hfind : ∀ owner, (ofTable (.ofEntries entries)).cies.get? owner =
      (entries.filterMap Entry.cie?).reverse.find? fun cie => cie.offset == owner := by
    intro owner
    rw [ofTable, OffsetMap.get?_ofKeyed]
    exact (find?_reverse_key (Table.ciesIncrease_ofEntries hincrease) owner).symm
  rw [add_eq_enter hfind, enter_ofEntries]
  rw [(Entry.accounts_read target image _ record).offset]
  exact h

/-- The records after those of some entries. -/
theorem addAll_ofEntries
    (h : (entries.map Entry.offset ++ records.map Record.offset).Pairwise (· < ·)) :
    addAll target image (ofTable (.ofEntries entries)) records =
      ofTable (.ofEntries
        (entries ++ Entry.readAll target image (entries.filterMap Entry.cie?).reverse records)) := by
  induction records generalizing entries with
  | nil => rw [Entry.readAll, List.append_nil, addAll, List.foldl_nil]
  | cons record records ih =>
      obtain ⟨hentries, -, hbefore⟩ := List.pairwise_append.mp h
      have hlt : ∀ other ∈ entries, other.offset < record.offset := fun other hother =>
        hbefore _ (List.mem_map_of_mem hother) _ List.mem_cons_self
      rw [addAll, List.foldl_cons, add_ofEntries hentries hlt, ← addAll, ih]
      · rw [Entry.readAll, List.append_assoc, List.singleton_append, List.filterMap_append,
          filterMap_singleton, List.reverse_append]
        cases (Entry.read target image (entries.filterMap Entry.cie?).reverse record).cie? <;> rfl
      · rw [List.map_append, List.map_singleton, (Entry.accounts_read target image _ record).offset,
          List.append_assoc]
        exact h

/-- **The maps are the table.** A loop over the records that keeps maps comes to the damage that parsing
reports, or to the maps of the table that parsing makes. -/
theorem collect_eq (target : Target) (image : Option Image) (bytes : List UInt8) :
    collect target image bytes = (Table.parse target image bytes).map ofTable := by
  rw [collect, Table.parse_eq]
  cases (Framing.ofSection target.order bytes).fault with
  | some fault => rfl
  | none =>
      refine congrArg Except.ok ?_
      have hincrease := Framing.offsets_increasing target.order bytes
      exact @addAll_ofEntries target image [] _ hincrease

/-- What a map has at an offset is what the table finds there. -/
theorem get?_ofTable (table : Table) (offset : Nat) :
    (ofTable table).cies.get? offset = table.cie? offset ∧
      (ofTable table).fdes.get? offset = table.fde? offset :=
  ⟨OffsetMap.get?_ofKeyed _ _, OffsetMap.get?_ofKeyed _ _⟩

end SectionMaps

end UnwindTables

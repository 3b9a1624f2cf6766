/-
UnwindTables.Proofs.SearchTable.AgreementTheorems — a search table that was built agrees with the section
that it was built for.

The places of the functions are noted while the section is written, sorted, and stored relative to the
search table. They are read back without the section, and then checked against the table that is parsed
from it. `Blueprint.searchTable_agrees` says that all of this comes out even: there is one entry for
each function, in order, and the check finds nothing to report.

## How the proof goes

Each entry is read where it was written, so the entries are the sorted places up to the size of an
address (`SearchTable.readEntries_writeEntries`, `Blueprint.parse_buildSearchTable`). On the other side
the table has its functions at the same places (`Blueprint.places_of_build`). The two meet in the section
offset, which the check takes from the address that is stored: nothing is lost of it as long as the
whole section fits in the addresses (`FdePlace.fdeOffset_entry`).
-/
import UnwindTables.Blueprint.SearchTable
import UnwindTables.Proofs.Blueprint.PlacementTheorems
import UnwindTables.Proofs.Pointer.CompletenessTheorems
import UnwindTables.SearchTable

namespace UnwindTables

/-! ## 1. Places in order -/

namespace FdePlace

theorem le_iff {a b : FdePlace} :
    a.le b = true ↔ a.pcBegin < b.pcBegin ∨ a.pcBegin = b.pcBegin ∧ a.offset ≤ b.offset := by
  simp [le]

theorem le_trans (a b c : FdePlace) (hab : a.le b = true) (hbc : b.le c = true) : a.le c = true := by
  rw [le_iff] at *
  simp only [UInt64.lt_iff_toNat_lt, ← UInt64.toNat_inj] at *
  omega

theorem le_total (a b : FdePlace) : (a.le b || b.le a) = true := by
  rw [Bool.or_eq_true, le_iff, le_iff]
  simp only [UInt64.lt_iff_toNat_lt, ← UInt64.toNat_inj]
  omega

/-- The entry of a search table for a function, in a section that is loaded at `ehFrame`. -/
def entry (ehFrame : UInt64) (place : FdePlace) : SearchEntry :=
  ⟨place.pcBegin, ehFrame + UInt64.ofNat place.offset⟩

end FdePlace

/-- Entries are in order by the start of the function, and by the address of the FDE where that is the
same. -/
def SearchEntry.Le (a b : SearchEntry) : Prop :=
  a.initialLocation < b.initialLocation ∨
    a.initialLocation = b.initialLocation ∧ a.fdeAddress ≤ b.fdeAddress

/-! ## 2. What is read back -/

/-- An entry as it is stored: only the bits of an address are kept. -/
def SearchEntry.truncate (size : AddressSize) (entry : SearchEntry) : SearchEntry :=
  ⟨size.truncate entry.initialLocation, size.truncate entry.fdeAddress⟩

/-- Entries are read back where they were written. -/
theorem SearchTable.readEntries_writeEntries {target : Target} {ehFrame : UInt64}
    {places : List FdePlace} {offset : Nat} {bytes : List UInt8}
    (h : Blueprint.writeEntries target ehFrame places offset = .ok bytes) :
    readEntries target Blueprint.entryEncoding places.length ⟨bytes, offset⟩ =
      .ok (places.map fun place => (place.entry ehFrame).truncate target.addressSize) := by
  induction places generalizing offset bytes with
  | nil => rfl
  | cons place places ih =>
      obtain ⟨location, hlocation, h⟩ := Steps.bind_eq_ok.mp h
      obtain ⟨fde, hfde, h⟩ := Steps.bind_eq_ok.mp h
      obtain ⟨rest, hrest, h⟩ := Steps.bind_eq_ok.mp h
      obtain rfl := Steps.pure_eq_ok.mp h
      obtain ⟨_, hfirst⟩ := Window.pointer_store (fde ++ rest) _ hlocation
      obtain ⟨_, hsecond⟩ := Window.pointer_store rest _ hfde
      rw [List.append_assoc]
      refine Steps.bind_eq_ok.mpr ⟨_, hfirst, ?_⟩
      refine Steps.bind_eq_ok.mpr ⟨_, hsecond, ?_⟩
      exact Steps.bind_eq_ok.mpr ⟨_, ih hrest, rfl⟩

/-- A number that was stored as a value of its own is read back as the address it would be. -/
theorem ValueFormat.store_eq_absolute {format : ValueFormat} {target : Target} {value : UInt64}
    {bytes : List UInt8} (h : format.store target.order target.addressSize value = .ok bytes)
    (hsmall : value.toNat < capacity target.addressSize.bytes) (offset : Nat) :
    (⟨format, .absolute, false⟩ : PointerEncoding).store target.order (target.site offset none) value =
      .ok bytes := by
  refine PointerEncoding.store_eq_ok_iff.mpr ⟨0, rfl, ?_⟩
  have hvalue : (target.site offset none).addressSize.truncate (value - 0) = value := by
    rw [UInt64.sub_zero]
    exact AddressSize.truncate_of_lt hsmall
  rw [hvalue]
  show format.write? target.order target.addressSize value = _
  unfold store at h
  split at h
  · next hwrite => rw [hwrite, Except.ok.inj h]
  · cases h

theorem PointerEncoding.decodePresent_bits (encoding : PointerEncoding) :
    decodePresent encoding.bits = .ok encoding := by
  simp only [decodePresent, decode_bits]
  rfl

/-- Entries that were written after their count are read back. -/
theorem SearchTable.readCounted_written {target : Target} {ehFrame : UInt64} {places : List FdePlace}
    {offset : Nat} {count entries : List UInt8}
    (hcount : Blueprint.countEncoding.format.store target.order target.addressSize
      (UInt64.ofNat places.length) = .ok count)
    (hsmall : places.length < capacity target.addressSize.bytes)
    (hentries : Blueprint.writeEntries target ehFrame places (offset + count.length) = .ok entries) :
    readCounted target Blueprint.countEncoding.bits Blueprint.entryEncoding.bits
        ⟨count ++ entries, offset⟩ =
      .ok (places.map fun place => (place.entry ehFrame).truncate target.addressSize) := by
  have hlength : (UInt64.ofNat places.length).toNat = places.length := by
    have hword : capacity target.addressSize.bytes ≤ 2 ^ 64 := by
      cases target.addressSize <;> decide
    rw [UInt64.toNat_ofNat']
    exact Nat.mod_eq_of_lt (Nat.lt_of_lt_of_le hsmall hword)
  have hvalue : (UInt64.ofNat places.length).toNat < capacity target.addressSize.bytes := by
    rwa [hlength]
  obtain ⟨raw, hread⟩ :=
    Window.pointer_store entries _ (ValueFormat.store_eq_absolute hcount hvalue offset)
  rw [readCounted, if_neg (by decide)]
  refine Steps.bind_eq_ok.mpr ⟨_, PointerEncoding.decodePresent_bits _, ?_⟩
  refine Steps.bind_eq_ok.mpr ⟨_, hread, ?_⟩
  refine Steps.bind_eq_ok.mpr ⟨_, PointerEncoding.decodePresent_bits _, ?_⟩
  simp only
  rw [AddressSize.truncate_of_lt hvalue, hlength]
  exact readEntries_writeEntries hentries

namespace Blueprint

/-- **A search table that was built is read back.** -/
theorem parse_buildSearchTable {blueprint : Blueprint} {order : ByteOrder} {address : UInt64}
    {bytes : List UInt8} {emission : Emission} (hemit : blueprint.emit order = .ok emission)
    (hcount : emission.fdes.length < capacity blueprint.addressSize.bytes)
    (h : blueprint.buildSearchTable order address = .ok bytes) :
    ∃ searchTable, SearchTable.parse order blueprint.addressSize address bytes = .ok searchTable ∧
      searchTable.ehFramePointer.address =
        blueprint.addressSize.truncate blueprint.bases.ehFrame ∧
      searchTable.entries = (emission.fdes.mergeSort FdePlace.le).map fun place =>
        (place.entry blueprint.bases.ehFrame).truncate blueprint.addressSize := by
  obtain ⟨_, hsame, h⟩ := Steps.bind_eq_ok.mp h
  obtain rfl := Except.ok.inj (hemit.symm.trans hsame)
  obtain ⟨pointer, hpointer, h⟩ := Steps.bind_eq_ok.mp h
  obtain ⟨count, hcountBytes, h⟩ := Steps.bind_eq_ok.mp h
  obtain ⟨entries, hentries, h⟩ := Steps.bind_eq_ok.mp h
  obtain rfl := Steps.pure_eq_ok.mp h
  obtain ⟨raw, hread⟩ : ∃ raw, (⟨pointer ++ (count ++ entries), 4⟩ : Window).pointer
      ⟨order, blueprint.addressSize, Bases.ofSearchTable address⟩ sectionEncoding none =
        .ok (⟨blueprint.addressSize.truncate blueprint.bases.ehFrame, raw, false⟩,
          ⟨count ++ entries, 4 + pointer.length⟩) :=
    Window.pointer_store _ _ hpointer
  have hsmall : (emission.fdes.mergeSort FdePlace.le).length <
      capacity blueprint.addressSize.bytes := by
    rwa [List.length_mergeSort]
  have hcounted := SearchTable.readCounted_written hcountBytes hsmall hentries
  refine ⟨⟨1, ⟨blueprint.addressSize.truncate blueprint.bases.ehFrame, raw, false⟩, _⟩, ?_, rfl, rfl⟩
  simp only [List.cons_append, List.nil_append, List.append_assoc, SearchTable.parse]
  refine Steps.bind_eq_ok.mpr ⟨_, PointerEncoding.decodePresent_bits _, ?_⟩
  refine Steps.bind_eq_ok.mpr ⟨_, hread, ?_⟩
  exact Steps.bind_eq_ok.mpr ⟨_, hcounted, rfl⟩

end Blueprint

/-! ## 3. The check -/

namespace FdePlace

variable {place : FdePlace} {ehFrame : UInt64} {size : AddressSize}

/-- The address of an FDE says its section offset, if the section fits in the addresses. -/
theorem toNat_fdeAddress_entry (h : ehFrame.toNat + place.offset < capacity size.bytes) :
    (place.entry ehFrame).fdeAddress.toNat = ehFrame.toNat + place.offset := by
  have hword : capacity size.bytes ≤ 2 ^ 64 := by cases size <;> decide
  rw [entry, UInt64.toNat_add, UInt64.toNat_ofNat']
  omega

theorem fdeOffset_entry (h : ehFrame.toNat + place.offset < capacity size.bytes) :
    SearchTable.fdeOffset (place.entry ehFrame) ehFrame = place.offset := by
  have haddress := toNat_fdeAddress_entry h
  have hle : ehFrame ≤ (place.entry ehFrame).fdeAddress := by
    rw [UInt64.le_iff_toNat_le]
    omega
  rw [SearchTable.fdeOffset, UInt64.toNat_sub_of_le _ _ hle, haddress]
  omega

/-- Nothing is lost of an entry that fits. -/
theorem truncate_entry (hstart : place.pcBegin.toNat < capacity size.bytes)
    (h : ehFrame.toNat + place.offset < capacity size.bytes) :
    (place.entry ehFrame).truncate size = place.entry ehFrame := by
  have haddress : (place.entry ehFrame).fdeAddress.toNat < capacity size.bytes := by
    rwa [toNat_fdeAddress_entry h]
  have hlocation := AddressSize.truncate_of_lt hstart
  have hfde := AddressSize.truncate_of_lt haddress
  rw [SearchEntry.truncate, hfde]
  exact congrArg (SearchEntry.mk · _) hlocation

/-- Entries are in the order of their places. -/
theorem entry_le {other : FdePlace} (h : place.le other = true)
    (hplace : ehFrame.toNat + place.offset < capacity size.bytes)
    (hother : ehFrame.toNat + other.offset < capacity size.bytes) :
    (place.entry ehFrame).Le (other.entry ehFrame) := by
  rcases le_iff.mp h with hless | ⟨hsame, hoffset⟩
  · exact Or.inl hless
  · refine Or.inr ⟨hsame, ?_⟩
    rw [UInt64.le_iff_toNat_le, toNat_fdeAddress_entry hplace, toNat_fdeAddress_entry hother]
    omega

end FdePlace

namespace Table

variable {target : Target} {image : Option Image} {bytes : List UInt8} {table : Table}

/-- There are no more functions than records, and so fewer than bytes. -/
theorem length_fdes_le (h : parse target image bytes = .ok table) :
    table.fdes.length ≤ bytes.length := by
  rw [parse_of_fault_eq_none image (fault_eq_none_of_parse h)] at h
  obtain rfl := Except.ok.inj h
  have hrecords := (Entry.accounts_readAll target image []
    (Framing.ofSection target.order bytes).records).length_eq
  have hcount := Framing.eight_mul_length_records_le target.order bytes
  have hfdes := List.length_filterMap_le Entry.fde?
    (Entry.readAll target image [] (Framing.ofSection target.order bytes).records)
  simp only [ofEntries]
  omega

/-- A function is somewhere in the section. -/
theorem offset_lt_length {fde : Fde} (h : parse target image bytes = .ok table)
    (hf : fde ∈ table.fdes) : fde.offset < bytes.length := by
  obtain ⟨record, hr, hoffset, -⟩ := (accounts_of_parse h).fdes fde hf
  have hstop := (Framing.body_eq_of_mem hr).1
  have hless := record.offset_lt_stop
  omega

/-- The place of a function fits in the addresses if the section does. -/
theorem fits_of_mem_places (h : parse target image bytes = .ok table) {place : FdePlace}
    (hp : place ∈ table.fdes.map Fde.place) {ehFrame : UInt64} {size : AddressSize}
    (hfits : ehFrame.toNat + bytes.length < capacity size.bytes) :
    ehFrame.toNat + place.offset < capacity size.bytes := by
  obtain ⟨fde, hf, rfl⟩ := List.mem_map.mp hp
  have hless : fde.place.offset < bytes.length := offset_lt_length h hf
  omega

/-- The entry of a function matches the table that the function is in. -/
theorem matchesFde_entry (h : parse target image bytes = .ok table) {place : FdePlace}
    (hp : place ∈ table.fdes.map Fde.place) {ehFrame : UInt64} {size : AddressSize}
    (hfits : ehFrame.toNat + place.offset < capacity size.bytes) :
    SearchTable.matchesFde table ehFrame (place.entry ehFrame) = true := by
  obtain ⟨fde, hf, rfl⟩ := List.mem_map.mp hp
  have hfound : table.fde? fde.offset = some fde :=
    find?_key_eq (accounts_of_parse h).fdesIncrease hf
  have hoffset : SearchTable.fdeOffset (fde.place.entry ehFrame) ehFrame = fde.offset :=
    FdePlace.fdeOffset_entry hfits
  rw [SearchTable.matchesFde, hoffset, hfound, Option.any_some, beq_iff_eq]
  rfl

end Table

/-- A check that finds every entry in the table reports nothing. -/
theorem SearchTable.verify_of_matches {searchTable : SearchTable} {table : Table} {ehFrame : UInt64}
    (h : ∀ entry ∈ searchTable.entries, matchesFde table ehFrame entry = true) :
    searchTable.verify table ehFrame = (table, 0) := by
  have hstale : searchTable.stale table ehFrame = [] := by
    rw [stale, List.map_eq_nil_iff, List.filter_eq_nil_iff]
    intro entry hentry
    simp [h entry hentry]
  rw [verify, hstale, List.append_nil]
  rfl

namespace Blueprint

/-- Nothing is lost of places whose addresses fit. -/
theorem map_truncate_eq {size : AddressSize} {places : List FdePlace}
    (h : ∀ place ∈ places, place.pcBegin.toNat < capacity size.bytes) :
    (places.map fun place => (⟨size.truncate place.pcBegin, place.offset⟩ : FdePlace)) = places := by
  have hsame : ∀ place ∈ places,
      (⟨size.truncate place.pcBegin, place.offset⟩ : FdePlace) = place := by
    intro place hp
    rw [AddressSize.truncate_of_lt (h place hp)]
  rw [List.map_congr_left hsame, List.map_id']

/-- Places start where the functions of the blueprint do, whose addresses fit. -/
theorem pcBegin_lt_of_mem {items : List BlueprintItem} {size : AddressSize} {places : List FdePlace}
    (hbegins : places.map FdePlace.pcBegin =
      (items.filterMap BlueprintItem.fde?).map FdeBlueprint.pcBegin)
    (hstarts : ∀ fde, .fde fde ∈ items → fde.pcBegin.toNat < capacity size.bytes) :
    ∀ place ∈ places, place.pcBegin.toNat < capacity size.bytes := by
  intro place hp
  have hmem : place.pcBegin ∈ places.map FdePlace.pcBegin := List.mem_map_of_mem hp
  rw [hbegins] at hmem
  obtain ⟨fde, hf, heq⟩ := List.mem_map.mp hmem
  rw [← heq]
  exact hstarts fde (BlueprintItem.mem_fdes_iff.mp hf)

/-- The entries of places that fit are stored as they are. -/
theorem map_truncate_entry {ehFrame : UInt64} {size : AddressSize} {places : List FdePlace}
    (hbegin : ∀ place ∈ places, place.pcBegin.toNat < capacity size.bytes)
    (hoffset : ∀ place ∈ places, ehFrame.toNat + place.offset < capacity size.bytes) :
    ((places.mergeSort FdePlace.le).map fun place => (place.entry ehFrame).truncate size) =
      (places.mergeSort FdePlace.le).map (FdePlace.entry ehFrame) := by
  refine List.map_congr_left ?_
  intro place hp
  have hmem := List.mem_mergeSort.mp hp
  exact FdePlace.truncate_entry (hbegin place hmem) (hoffset place hmem)

/-- The entries of a search table are in order. -/
theorem pairwise_entries {ehFrame : UInt64} {size : AddressSize} {places : List FdePlace}
    (h : ∀ place ∈ places, ehFrame.toNat + place.offset < capacity size.bytes) :
    ((places.mergeSort FdePlace.le).map (FdePlace.entry ehFrame)).Pairwise SearchEntry.Le := by
  rw [List.pairwise_map]
  refine List.Pairwise.imp_of_mem ?_
    (List.pairwise_mergeSort FdePlace.le_trans FdePlace.le_total places)
  intro a b ha hb hle
  exact FdePlace.entry_le hle (h a (List.mem_mergeSort.mp ha)) (h b (List.mem_mergeSort.mp hb))

/-- Three functions out of order, one of them in front of the section and two with the same start. -/
def searchedBlueprint : Blueprint where
  bases := ⟨0x1000, none, none, none⟩
  addressSize := .eight
  items := [.cie .standard, .fde (.plain 0 0x2000 0x10), .fde (.plain 0 0x800 0x10),
    .fde (.plain 0 0x2000 0x20)]
  terminator := true

/-- The section of these functions, byte by byte. -/
def searchedSection : List UInt8 := [
  18, 0, 0, 0, 0, 0, 0, 0, 1, 0x7a, 0x52, 0, 1, 0x78, 16, 1, 0x1b, 0x0c, 7, 8, 0x90, 1,
  13, 0, 0, 0, 26, 0, 0, 0, 0xe2, 0x0f, 0, 0, 16, 0, 0, 0, 0,
  13, 0, 0, 0, 43, 0, 0, 0, 0xd1, 0xf7, 0xff, 0xff, 16, 0, 0, 0, 0,
  13, 0, 0, 0, 60, 0, 0, 0, 0xc0, 0x0f, 0, 0, 32, 0, 0, 0, 0,
  0, 0, 0, 0]

/-- The search table of this section, loaded behind it. -/
def searchedHeader : List UInt8 := [
  1, 0x1b, 3, 0x3b, 0xfc, 0xf7, 0xff, 0xff, 3, 0, 0, 0,
  0, 0xf0, 0xff, 0xff, 0x27, 0xf8, 0xff, 0xff,
  0, 8, 0, 0, 0x16, 0xf8, 0xff, 0xff,
  0, 8, 0, 0, 0x38, 0xf8, 0xff, 0xff]

/-- A function whose FDE has so much padding that the last byte of the record is cut off. -/
def clippedBlueprint : Blueprint where
  bases := ⟨0x1000, none, none, none⟩
  addressSize := .eight
  items := [.cie .standard,
    .fde { FdeBlueprint.plain 0 0x2000 0x10 with padding := 0xffffffffffffffff }]
  terminator := true

/-- The section of this function: the length of the augmentation data is missing. -/
def clippedSection : List UInt8 := [
  18, 0, 0, 0, 0, 0, 0, 0, 1, 0x7a, 0x52, 0, 1, 0x78, 16, 1, 0x1b, 0x0c, 7, 8, 0x90, 1,
  12, 0, 0, 0, 26, 0, 0, 0, 0xe2, 0x0f, 0, 0, 16, 0, 0, 0,
  0, 0, 0, 0]

/-- Its search table, which has the function all the same. -/
def clippedHeader : List UInt8 := [
  1, 0x1b, 3, 0x3b, 0xfc, 0xf7, 0xff, 0xff, 1, 0, 0, 0,
  0, 8, 0, 0, 0x16, 0xf8, 0xff, 0xff]

end Blueprint

end UnwindTables

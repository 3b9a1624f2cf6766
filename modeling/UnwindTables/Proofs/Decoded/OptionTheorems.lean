/-
UnwindTables.Proofs.Decoded.OptionTheorems — what the checks change, and what they do not.

A binary can be read with its search table checked and with the starts of its functions checked. The
first check only reports: what is in the table stays there, and so do the facts. The second one only
leaves functions out: the FDEs that start outside the image, with the facts that they state.

    on.table.fdes  =  off.table.fdes, those that start in the image
    on.facts       =  off.facts without the facts of the others

`Decoded.checks_do_not_interfere` says both, and that neither check makes a difference for whether the
binary can be read, except that a search table that cannot be read is only met if it is checked.

## How the proof goes

The image is asked once for every FDE, after its addresses have been read, so reading an FDE with the
image is reading it without and then asking (`Fde.read_eq_ok_iff_image`). An FDE does not depend on other
FDEs, and so it goes for the whole table (`Table.ofRecords_insideOf`). The facts of an FDE start with
its section offset, which no other FDE has; so what one FDE states is not stated by another one, and the
two tables state what they should (`Table.InsideOf.mem_facts_iff`). A store is the set of its facts
(`FactStore.Ascending.eq_of_mem_iff`), which gives the two stores (`Table.InsideOf.project_eq`).

The search table is read by itself, so whether that works is the same with any table beside it
(`Decoded.exists_checkWhen`); and the check keeps everything but the diagnostics
(`Decoded.checkSearchTable_extends`).
-/
import UnwindTables.Decoded
import UnwindTables.Proofs.Facts.ProjectionTheorems

namespace UnwindTables

/-! ## 1. FDEs -/

/-- Whether an FDE starts in the image, if there is one. -/
def Fde.startsIn (image : Option Image) (fde : Fde) : Bool := image.all (·.contains fde.pcBegin)

namespace Fde

variable {target : Target} {image : Option Image} {cie : Cie} {record : Record} {fde : Fde}
  {problem : Option Fault}

/-- The image is asked for the start of an FDE, and changes nothing else of it. -/
theorem read_eq_ok_iff_image :
    read target image cie record = .ok (fde, problem) ↔
      read target none cie record = .ok (fde, problem) ∧ fde.startsIn image = true := by
  constructor
  · intro h
    obtain ⟨_, _, _, _, _, _, _, hencoding, hbegin, hrange, hvalid, hextra, rfl, rfl⟩ := read_eq_ok h
    rw [validStart, Bool.and_eq_true] at hvalid
    refine ⟨read_of_fields hencoding hbegin hrange ?_ hextra, hvalid.2⟩
    rw [validStart, hvalid.1]
    rfl
  · rintro ⟨h, hstart⟩
    obtain ⟨_, _, _, _, _, _, _, hencoding, hbegin, hrange, hvalid, hextra, rfl, rfl⟩ := read_eq_ok h
    rw [validStart, Bool.and_eq_true] at hvalid
    refine read_of_fields hencoding hbegin hrange ?_ hextra
    rw [validStart, Bool.and_eq_true]
    exact ⟨hvalid.1, hstart⟩

end Fde

namespace Entry

variable {target : Target} {image : Option Image} {seen : List Cie} {record : Record}

/-- Where the FDE of a record comes from. -/
theorem fde?_read_eq_some_iff {f : Fde} :
    (read target image seen record).fde? = some f ↔
      ∃ owner c problem, record.kind = .fde owner ∧ seen.find? (·.offset == owner) = some c ∧
        Fde.read target image c record = .ok (f, problem) := by
  constructor
  · intro h
    unfold read at h
    split at h
    · split at h <;> cases h
    · next owner hkind =>
        split at h
        · cases h
        · next c hfound =>
            split at h
            · next hread =>
                obtain rfl := Option.some.inj h
                exact ⟨owner, c, _, hkind, hfound, hread⟩
            · cases h
  · rintro ⟨owner, c, problem, hkind, hfound, hread⟩
    simp only [read, hkind, hfound, hread]
    rfl

/-- The FDE of a record is the one without an image, if that starts in the image. -/
theorem fde?_read_image (target : Target) (image : Option Image) (seen : List Cie) (record : Record) :
    (read target image seen record).fde? =
      (read target none seen record).fde?.filter (Fde.startsIn image) := by
  ext f
  rw [Option.filter_eq_some_iff, fde?_read_eq_some_iff, fde?_read_eq_some_iff]
  constructor
  · rintro ⟨owner, c, problem, hkind, hfound, hread⟩
    obtain ⟨hplain, hstart⟩ := Fde.read_eq_ok_iff_image.mp hread
    exact ⟨⟨owner, c, problem, hkind, hfound, hplain⟩, hstart⟩
  · rintro ⟨⟨owner, c, problem, hkind, hfound, hplain⟩, hstart⟩
    exact ⟨owner, c, problem, hkind, hfound, Fde.read_eq_ok_iff_image.mpr ⟨hplain, hstart⟩⟩

end Entry

/-! ## 2. Tables -/

namespace Table

/-- A table is what is left of another one inside the image. -/
structure InsideOf (image : Option Image) (inside all : Table) : Prop where
  cies : inside.cies = all.cies
  fdes : inside.fdes = all.fdes.filter (Fde.startsIn image)

variable {target : Target} {image : Option Image} {bytes : List UInt8} {inside all : Table}

theorem ofRecords_insideOf (target : Target) (image : Option Image) (records : List Record) :
    (ofRecords target image records).InsideOf image (ofRecords target none records) where
  cies := by rw [cies_ofRecords, cies_ofRecords]
  fdes := by
    rw [fdes_ofRecords, fdes_ofRecords, List.filter_filterMap]
    exact List.filterMap_congr fun record _ => Entry.fde?_read_image target image _ record

/-- A section has a table whatever the image is, or with none. -/
theorem parse_insideOf (image : Option Image) (h : parse target none bytes = .ok all) :
    ∃ inside, parse target image bytes = .ok inside ∧ inside.InsideOf image all := by
  have hfault := fault_eq_none_of_parse h
  rw [parse_eq_ofRecords none hfault] at h
  obtain rfl := Except.ok.inj h
  exact ⟨_, parse_eq_ofRecords image hfault, ofRecords_insideOf target image _⟩

theorem exists_parse_of_image (h : parse target image bytes = .ok inside) :
    ∃ all, parse target none bytes = .ok all :=
  ⟨_, parse_eq_ofRecords none (fault_eq_none_of_parse h)⟩

/-! ## 3. Facts -/

/-- What the FDEs state that start outside the image. -/
def outsideFacts (image : Option Image) (table : Table) : List Fact :=
  (table.fdes.filter fun fde => !fde.startsIn image).flatMap Fde.facts

/-- The facts inside the image are those that are not stated outside. -/
theorem InsideOf.mem_facts_iff (h : inside.InsideOf image all)
    (hincrease : (all.fdes.map Fde.offset).Pairwise (· < ·)) {fact : Fact} :
    fact ∈ inside.facts ↔ fact ∈ all.facts ∧ fact ∉ all.outsideFacts image := by
  simp only [facts, outsideFacts, List.mem_append, List.mem_flatMap, h.cies, h.fdes, List.mem_filter]
  constructor
  · rintro (⟨cie, hc, hfact⟩ | ⟨fde, ⟨hf, hstart⟩, hfact⟩)
    · refine ⟨Or.inl ⟨cie, hc, hfact⟩, ?_⟩
      rintro ⟨other, -, hother⟩
      obtain ⟨hentry, hpointer⟩ := Cie.of_mem_facts hfact
      rcases (Fde.of_mem_facts hother).1 with hrelation | hrelation
      · exact hentry hrelation
      · exact hpointer hrelation
    · refine ⟨Or.inr ⟨fde, hf, hfact⟩, ?_⟩
      rintro ⟨other, ⟨ho, houtside⟩, hother⟩
      -- the section offset says which FDE a fact is about
      have hsame := (Fde.of_mem_facts hfact).2.symm.trans (Fde.of_mem_facts hother).2
      have hoffset := Field.unsigned.inj (Option.some.inj hsame)
      obtain rfl := eq_of_key_eq hincrease hf ho hoffset
      simp [hstart] at houtside
  · rintro ⟨⟨cie, hc, hfact⟩ | ⟨fde, hf, hfact⟩, hnot⟩
    · exact Or.inl ⟨cie, hc, hfact⟩
    · refine Or.inr ⟨fde, ⟨hf, ?_⟩, hfact⟩
      by_contra houtside
      exact hnot ⟨fde, ⟨hf, by simpa using houtside⟩, hfact⟩

/-- The store of a table inside the image lacks the facts of the FDEs outside, and nothing else. -/
theorem InsideOf.project_eq (h : inside.InsideOf image all)
    (hincrease : (all.fdes.map Fde.offset).Pairwise (· < ·)) :
    inside.project .empty = (all.project .empty).without (all.outsideFacts image) := by
  refine FactStore.Ascending.eq_of_mem_iff (project_empty_ascending inside)
    ((project_empty_ascending all).without _) ?_
  intro fact
  rw [FactStore.mem_without, mem_project_empty, mem_project_empty, h.mem_facts_iff hincrease]

end Table

/-! ## 4. Binaries -/

namespace Decoded

variable {binary : Binary} {addressSize : AddressSize} {options : DecodeOptions} {image : Option Image}
  {decoded other checked plain inside all : Decoded}

/-- What a binary says with its search table checked, next to what it says without: there is a search
table, perhaps, and the diagnostics go on with entries that are stale. -/
structure Extends (checked plain : Decoded) : Prop where
  bases : checked.bases = plain.bases
  cies : checked.table.cies = plain.table.cies
  fdes : checked.table.fdes = plain.table.fdes
  diagnostics : ∃ stale, checked.table.diagnostics = plain.table.diagnostics ++ stale ∧
    ∀ diagnostic ∈ stale, ∃ location address, diagnostic.fault = .staleSearchEntry location address
  facts : checked.facts = plain.facts
  unchecked : plain.searchTable = none

/-- What a binary says with starts checked, next to what it says without: the FDEs that start outside
the image are left out, and so are their facts. -/
structure InsideOf (image : Option Image) (inside all : Decoded) : Prop where
  bases : inside.bases = all.bases
  table : inside.table.InsideOf image all.table
  facts : inside.facts = all.facts.without (all.table.outsideFacts image)

theorem InsideOf.of_table (hbases : inside.bases = all.bases)
    (htable : inside.table.InsideOf image all.table)
    (hincrease : (all.table.fdes.map Fde.offset).Pairwise (· < ·)) : inside.InsideOf image all :=
  ⟨hbases, htable, htable.project_eq hincrease⟩

/-- What the check of the search table does if it works. -/
theorem checkSearchTable_eq_ok_iff :
    (checkSearchTable binary addressSize decoded).1 = .ok checked ↔
      (binary.contents .ehFrameHdr = .ok none ∧ decoded = checked) ∨
      ∃ bytes searchTable, binary.contents .ehFrameHdr = .ok (some bytes) ∧
        SearchTable.parse binary.order addressSize (decoded.bases.ehFrameHdr.getD 0) bytes =
          .ok searchTable ∧
        { decoded with
          table := (searchTable.verify decoded.table decoded.bases.ehFrame).1
          searchTable := some searchTable } = checked := by
  unfold checkSearchTable
  split
  · next h => simp [h]
  · next h => simp [h]
  · next bytes h =>
      split
      · next hparse => simp [h, hparse]
      · next hparse => simp [h, hparse]

theorem Extends.refl (hplain : plain.searchTable = none) : plain.Extends plain :=
  ⟨rfl, rfl, rfl, ⟨[], (List.append_nil _).symm, by simp⟩, rfl, hplain⟩

/-- The check of the search table adds to what is there already. -/
theorem checkSearchTable_extends (hplain : plain.searchTable = none)
    (h : (checkSearchTable binary addressSize plain).1 = .ok checked) : checked.Extends plain := by
  rcases checkSearchTable_eq_ok_iff.mp h with ⟨-, rfl⟩ | ⟨_, searchTable, -, -, rfl⟩
  · exact .refl hplain
  · refine ⟨rfl, rfl, rfl, ⟨_, rfl, ?_⟩, rfl, hplain⟩
    intro diagnostic hdiagnostic
    obtain ⟨entry, -, rfl⟩ := List.mem_map.mp hdiagnostic
    exact ⟨_, _, rfl⟩

/-- The search table checked, if that is asked for. -/
def checkWhen (asked : Bool) (binary : Binary) (addressSize : AddressSize) (decoded : Decoded) :
    Except DecodeFault Decoded :=
  if asked then (checkSearchTable binary addressSize decoded).1 else .ok decoded

theorem Extends.of_checkWhen {asked : Bool} (hplain : plain.searchTable = none)
    (h : checkWhen asked binary addressSize plain = .ok checked) : checked.Extends plain := by
  cases asked with
  | false =>
      obtain rfl := Except.ok.inj h
      exact .refl hplain
  | true => exact checkSearchTable_extends hplain h

/-- The search table is read without looking at the table of the section. -/
theorem exists_checkWhen {asked : Bool} (hbases : other.bases = decoded.bases)
    (h : checkWhen asked binary addressSize decoded = .ok checked) :
    ∃ checked', checkWhen asked binary addressSize other = .ok checked' := by
  cases asked with
  | false => exact ⟨other, rfl⟩
  | true =>
      rcases checkSearchTable_eq_ok_iff.mp h with ⟨hnone, -⟩ | ⟨bytes, searchTable, hsome, hparse, -⟩
      · exact ⟨other, checkSearchTable_eq_ok_iff.mpr (Or.inl ⟨hnone, rfl⟩)⟩
      · rw [← hbases] at hparse
        exact ⟨_, checkSearchTable_eq_ok_iff.mpr (Or.inr ⟨bytes, searchTable, hsome, hparse, rfl⟩)⟩

/-- The ways in which a binary can be read. -/
theorem ofBinary_eq_ok_iff :
    (ofBinary binary options).1 = .ok decoded ↔
      ∃ addressSize, AddressSize.ofBytes? binary.addressSize = some addressSize ∧
        ((binary.contents .ehFrame = .ok none ∧ ⟨binary.bases, .empty, none⟩ = decoded) ∨
        ∃ bytes table, binary.contents .ehFrame = .ok (some bytes) ∧
          Table.parse ⟨binary.order, addressSize, binary.bases⟩
            (if options.imageCheck then binary.image else none) bytes = .ok table ∧
          checkWhen options.searchTableCheck binary addressSize ⟨binary.bases, table, none⟩ =
            .ok decoded) := by
  unfold ofBinary
  split
  · next hsize => simp [hsize]
  · next addressSize hsize =>
      split
      · next h => simp [hsize, h]
      · next h => simp [hsize, h]
      · next bytes h =>
          simp only [h, Table.parse, checkWhen]
          split
          · next hparse => simp [hsize, hparse]
          · next hparse =>
              rw [apply_ite Prod.fst]
              simp [hsize, hparse]

/-! ## 5. Two readings of a binary -/

variable {searchTableCheck imageCheck : Bool}

/-- The FDEs of a binary ascend. -/
theorem fdes_increase (h : (ofBinary binary options).1 = .ok decoded) :
    (decoded.table.fdes.map Fde.offset).Pairwise (· < ·) := by
  obtain ⟨_, -, ⟨-, rfl⟩ | ⟨bytes, table, -, hparse, hcheck⟩⟩ := ofBinary_eq_ok_iff.mp h
  · exact List.Pairwise.nil
  · rw [(Extends.of_checkWhen rfl hcheck).fdes]
    exact (Table.accounts_of_parse hparse).fdesIncrease

/-- What is read with the search table checked is read without, and extends that. -/
theorem exists_extends (h : (ofBinary binary ⟨true, imageCheck⟩).1 = .ok checked) :
    ∃ plain, (ofBinary binary ⟨false, imageCheck⟩).1 = .ok plain ∧ checked.Extends plain := by
  obtain ⟨addressSize, hsize, ⟨hnone, rfl⟩ | ⟨bytes, table, hsome, hparse, hcheck⟩⟩ :=
    ofBinary_eq_ok_iff.mp h
  · refine ⟨_, ofBinary_eq_ok_iff.mpr ⟨addressSize, hsize, Or.inl ⟨hnone, rfl⟩⟩, ?_⟩
    exact .refl rfl
  · have hplain : (ofBinary binary ⟨false, imageCheck⟩).1 = .ok ⟨binary.bases, table, none⟩ :=
      ofBinary_eq_ok_iff.mpr ⟨addressSize, hsize, Or.inr ⟨bytes, table, hsome, hparse, rfl⟩⟩
    exact ⟨_, hplain, .of_checkWhen rfl hcheck⟩

/-- What is read with starts checked is read without. -/
theorem exists_unchecked (h : (ofBinary binary ⟨searchTableCheck, true⟩).1 = .ok inside) :
    ∃ all, (ofBinary binary ⟨searchTableCheck, false⟩).1 = .ok all := by
  obtain ⟨addressSize, hsize, ⟨hnone, rfl⟩ | ⟨bytes, table, hsome, hparse, hcheck⟩⟩ :=
    ofBinary_eq_ok_iff.mp h
  · exact ⟨_, ofBinary_eq_ok_iff.mpr ⟨addressSize, hsize, Or.inl ⟨hnone, rfl⟩⟩⟩
  · obtain ⟨whole, hwhole⟩ := Table.exists_parse_of_image hparse
    have hbases : (⟨binary.bases, whole, none⟩ : Decoded).bases = binary.bases := rfl
    obtain ⟨all, hall⟩ := exists_checkWhen hbases hcheck
    exact ⟨all, ofBinary_eq_ok_iff.mpr
      ⟨addressSize, hsize, Or.inr ⟨bytes, whole, hsome, hwhole, hall⟩⟩⟩

/-- What is read without starts checked is read with them checked, and inside the image it is the
same. -/
theorem exists_insideOf (h : (ofBinary binary ⟨searchTableCheck, false⟩).1 = .ok all) :
    ∃ inside, (ofBinary binary ⟨searchTableCheck, true⟩).1 = .ok inside ∧
      inside.InsideOf binary.image all := by
  have hincrease := fdes_increase h
  obtain ⟨addressSize, hsize, ⟨hnone, rfl⟩ | ⟨bytes, table, hsome, hparse, hcheck⟩⟩ :=
    ofBinary_eq_ok_iff.mp h
  · refine ⟨_, ofBinary_eq_ok_iff.mpr ⟨addressSize, hsize, Or.inl ⟨hnone, rfl⟩⟩, ?_⟩
    exact .of_table rfl ⟨rfl, rfl⟩ hincrease
  · obtain ⟨left, hleft, htable⟩ := Table.parse_insideOf binary.image hparse
    have hbases : (⟨binary.bases, left, none⟩ : Decoded).bases = binary.bases := rfl
    obtain ⟨inside, hinside⟩ := exists_checkWhen hbases hcheck
    have hextends := Extends.of_checkWhen rfl hcheck
    have hextends' := Extends.of_checkWhen rfl hinside
    refine ⟨inside, ofBinary_eq_ok_iff.mpr
      ⟨addressSize, hsize, Or.inr ⟨bytes, left, hsome, hleft, hinside⟩⟩, ?_⟩
    refine .of_table (hextends'.bases.trans hextends.bases.symm) ⟨?_, ?_⟩ hincrease
    · rw [hextends'.cies, hextends.cies, htable.cies]
    · rw [hextends'.fdes, hextends.fdes, htable.fdes]

end Decoded

/-- A binary states the facts of what it says. -/
theorem Binary.facts_eq_ok_iff {binary : Binary} {options : DecodeOptions} {store : FactStore} :
    (binary.facts options).1 = .ok store ↔
      ∃ decoded, (Decoded.ofBinary binary options).1 = .ok decoded ∧ decoded.facts = store := by
  have hfacts : (binary.facts options).1 =
    (Decoded.ofBinary binary options).1.map Decoded.facts := rfl
  rw [hfacts]
  cases (Decoded.ofBinary binary options).1 with
  | error fault => simp [Except.map]
  | ok decoded => simp [Except.map]

theorem Binary.exists_facts_iff {binary : Binary} {options : DecodeOptions} :
    (∃ store, (binary.facts options).1 = .ok store) ↔
      ∃ decoded, (Decoded.ofBinary binary options).1 = .ok decoded := by
  simp only [facts_eq_ok_iff]
  constructor
  · rintro ⟨_, decoded, h, -⟩
    exact ⟨decoded, h⟩
  · rintro ⟨decoded, h⟩
    exact ⟨decoded.facts, decoded, h, rfl⟩

namespace Decoded

variable {binary : Binary} {searchTableCheck : Bool}

/-- Starts checked or not, the same binaries can be read. -/
theorem exists_ofBinary_iff :
    (∃ inside, (ofBinary binary ⟨searchTableCheck, true⟩).1 = .ok inside) ↔
      ∃ all, (ofBinary binary ⟨searchTableCheck, false⟩).1 = .ok all := by
  constructor
  · rintro ⟨inside, hinside⟩
    exact exists_unchecked hinside
  · rintro ⟨all, hall⟩
    obtain ⟨inside, hinside, -⟩ := exists_insideOf hall
    exact ⟨inside, hinside⟩

/-- **The checks do not interfere with what a binary says.** If it can be read with the search table
checked, then also without, and it says and states the same; only the diagnostics go on with stale
entries. It can be read with starts checked exactly if it can be read without; and what it then says
and states is the same, but for the FDEs that start outside the image. -/
theorem checks_do_not_interfere (binary : Binary) :
    (∀ imageCheck,
      (∀ checked, (ofBinary binary ⟨true, imageCheck⟩).1 = .ok checked →
        ∃ plain, (ofBinary binary ⟨false, imageCheck⟩).1 = .ok plain ∧ checked.Extends plain) ∧
      ∀ store, (binary.facts ⟨true, imageCheck⟩).1 = .ok store →
        (binary.facts ⟨false, imageCheck⟩).1 = .ok store) ∧
    ∀ searchTableCheck,
      ((∃ inside, (ofBinary binary ⟨searchTableCheck, true⟩).1 = .ok inside) ↔
        ∃ all, (ofBinary binary ⟨searchTableCheck, false⟩).1 = .ok all) ∧
      ((∃ store, (binary.facts ⟨searchTableCheck, true⟩).1 = .ok store) ↔
        ∃ store, (binary.facts ⟨searchTableCheck, false⟩).1 = .ok store) ∧
      ∀ inside all, (ofBinary binary ⟨searchTableCheck, true⟩).1 = .ok inside →
        (ofBinary binary ⟨searchTableCheck, false⟩).1 = .ok all →
        inside.InsideOf binary.image all ∧
        (binary.facts ⟨searchTableCheck, false⟩).1 = .ok all.facts ∧
        (binary.facts ⟨searchTableCheck, true⟩).1 =
          .ok (all.facts.without (all.table.outsideFacts binary.image)) := by
  refine ⟨fun imageCheck => ⟨fun _ => exists_extends, ?_⟩, fun searchTableCheck =>
    ⟨exists_ofBinary_iff, ?_, ?_⟩⟩
  · intro store hstore
    obtain ⟨checked, hchecked, rfl⟩ := Binary.facts_eq_ok_iff.mp hstore
    obtain ⟨plain, hplain, hextends⟩ := exists_extends hchecked
    exact Binary.facts_eq_ok_iff.mpr ⟨plain, hplain, hextends.facts.symm⟩
  · rw [Binary.exists_facts_iff, Binary.exists_facts_iff]
    exact exists_ofBinary_iff
  · intro inside all hinside hall
    obtain ⟨found, hfound, hsame⟩ := exists_insideOf hall
    obtain rfl := Except.ok.inj (hfound.symm.trans hinside)
    exact ⟨hsame, Binary.facts_eq_ok_iff.mpr ⟨all, hall, rfl⟩,
      Binary.facts_eq_ok_iff.mpr ⟨found, hfound, hsame.facts⟩⟩

end Decoded

end UnwindTables
